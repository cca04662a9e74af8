import FrameFlow.Proofs.Monotone

/-!
# Instructions are monotone

In the order of frames alone, an instruction carried out on a lower frame succeeds
whenever it does on a higher one, and gives a lower frame.  Only what the class
test finds on the stack has to be carried openly: locals are moved and folded, and
both ways to carry a constant are the same to that.

The lower frame may take another way through a call.  A method may be folded or
run there by the host that is not even asked for the higher frame, or it may fail
in the host, which leaves its result unresolved.
-/

namespace FrameFlow

variable {σ : Type}

namespace Frame

variable {F G : Frame}

/-- The upper frame leads, since it is the one whose failures are excused. -/
theorem le_parallel :
    Parallel (fun _ => True) (fun b a : Value => a ≤ b) fun G F : Frame => F ≤ G where
  width hab := (Value.width_eq_of_le hab).symm
  push h hab := Follows.iff_concurs.1 (push_follows joinStable_le h hab)
  pop h := Follows.iff_concurs.1 (pop_follows h)
  read h k := Follows.iff_concurs.1 (readLocal_follows h k)
  write h hab k := Follows.iff_concurs.1 (writeLocal_follows joinStable_le h hab k)
  unresolved _ := le_refl _
  const _ := le_refl _
  ref _ := le_refl _
  fold₁ := Value.le_fold₁
  fold₂ := Value.le_fold₂

private theorem effect_le {τ : Type} (hFG : F ≤ G) (hplain : ∀ v ∈ F.stack, v.Plain)
    (insn : Insn τ) :
    Concurs (fun _ => True) (fun K H : Frame => H ≤ K) (insn.effect G) (insn.effect F) := by
  refine le_parallel.effect hFG insn ?_
  rintro className rfl
  refine (le_parallel.popWidth hFG .one).bind_ok fun y x _ hx hxy => ?_
  obtain ⟨rest, hstack, _⟩ := popWidth_ok_iff.1 hx
  have hx : x.1.Plain := hplain x.1 (by simp [hstack])
  exact le_parallel.push hxy.2 (Value.refines_instanceTest className ⟨hx, hxy.1⟩).2

end Frame

namespace Config

variable {cfg : Config σ}

private theorem Tabled.onward_le (hcfg : cfg.Tabled) {I : σ → Prop} (hrepeat : cfg.Repeatable I)
    {world world' : σ} (hworld : I world) (hworld' : I world') {F G : Frame} (hFG : F ≤ G)
    (hplain : ∀ v ∈ F.stack, v.Plain) (position : Nat) (insn : Insn Nat) :
    Follows (fun H K : Frame => H ≤ K) (cfg.onward world position insn F)
      (cfg.onward world' position insn G) := by
  refine Follows.iff_concurs.2
    (Frame.le_parallel.onward ?_ ?_ hFG (Frame.effect_le hFG hplain insn))
  · intro f
    exact (hcfg.staticField_refines f world world').2
  · intro m args' args hargs
    have hresult := hcfg.callResult_refines hrepeat hworld hworld' position m hargs.flip
    exact rel_converse hresult fun _ _ hab => hab.2

/-- `onward` is the frame after the instruction, or after skipping a call that failed. -/
theorem onward_monotone (hcfg : cfg.Tabled) {I : σ → Prop}
    (hhost : ∀ host, cfg.host = some host → ∀ m args, Repeats I (host m args))
    {world world' : σ} (hworld : I world) (hworld' : I world') (position : Nat)
    (insn : Insn Nat) {F G K : Frame} (hFG : F ≤ G) (hplain : ∀ v ∈ F.stack, v.Plain)
    (hK : cfg.onward world' position insn G = .ok K) :
    ∃ H, cfg.onward world position insn F = .ok H ∧ H ≤ K := by
  have hcfg' : Tabled { cfg with policy := none } := ⟨hcfg.fields, hcfg.calls⟩
  exact hcfg'.onward_le (hcfg.repeatable hhost) hworld hworld' hFG hplain position insn K hK

end Config

def divide : MethodRef :=
  ⟨"Calc", "divide", ⟨[.base .int, .base .int], some (.base .int)⟩⟩

def calculator : Config Nat where
  mode := .simulated
  host := some fun _ args count =>
    match args with
    | [.const (.int a), .const (.int b)] =>
        if b = 0 then (.error ⟨.targetException, "zero"⟩, count + 1)
        else (.ok (some (.const (.int (a / b)))), count + 1)
    | _ => (.error ⟨.unsupported, "divide"⟩, count + 1)

theorem calculator_host {host : Host Nat} (h : calculator.host = some host) (m : MethodRef)
    (args : List HostValue) : Repeats (fun _ => True) (host m args) := by
  cases h
  simp only
  split
  · split
    · exact ⟨_, fun _ _ => ⟨rfl, trivial⟩⟩
    · exact ⟨_, fun _ _ => ⟨rfl, trivial⟩⟩
  · exact ⟨_, fun _ _ => ⟨rfl, trivial⟩⟩

def operands (divisor carried : Value) : Frame :=
  ⟨[some carried, none], [divisor, .const (.int 12)], some 2⟩

private theorem operands_le (divisor : Int32) :
    operands (.const (.int divisor)) (.sim (.const (.long 3))) ≤
      operands (.unresolved .one) (.const (.long 3)) := by
  refine ⟨⟨rfl, rfl⟩, fun k b hb => ?_, .cons (Value.le_unresolved rfl) (.cons (le_refl _) .nil)⟩
  match k with
  | 0 =>
      cases hb
      exact ⟨_, rfl, Value.sim_le_const _⟩
  | 1 => cases hb
  | k + 2 => cases hb

def divided (world : Nat) (divisor carried : Value) : Except FrameError Frame :=
  calculator.onward world 0 (.invoke .static divide) (operands divisor carried)

theorem divided_monotone :
    (∃ H K, divided 0 (.const (.int 3)) (.sim (.const (.long 3))) = .ok H ∧
        divided 7 (.unresolved .one) (.const (.long 3)) = .ok K ∧
        H.stack = [.const (.int 4)] ∧ K.stack = [.unresolved .one] ∧ H ≤ K) ∧
      ∃ H K, divided 0 (.const (.int 0)) (.sim (.const (.long 3))) = .ok H ∧
        divided 7 (.unresolved .one) (.const (.long 3)) = .ok K ∧
        H.stack = [.unresolved .one] ∧ K.stack = [.unresolved .one] ∧ H ≤ K := by
  have hblurred : divided 7 (.unresolved .one) (.const (.long 3)) =
      .ok ⟨[some (.const (.long 3)), none], [.unresolved .one], some 2⟩ := by
    decide +kernel
  have hstep (divisor : Int32) :
      ∃ H, divided 0 (.const (.int divisor)) (.sim (.const (.long 3))) = .ok H ∧ H ≤ _ :=
    Config.onward_monotone ⟨.inl rfl, .inl rfl⟩ (fun _ hhost => calculator_host hhost) trivial
      trivial 0 _ (operands_le divisor) (by simp [operands, Value.Plain]) hblurred
  constructor
  · have hknown : divided 0 (.const (.int 3)) (.sim (.const (.long 3))) =
        .ok ⟨[some (.sim (.const (.long 3))), none], [.const (.int 4)], some 2⟩ := by
      decide +kernel
    obtain ⟨H, hH, hle⟩ := hstep 3
    cases hknown.symm.trans hH
    exact ⟨_, _, hknown, hblurred, rfl, rfl, hle⟩
  · have hfailed : divided 0 (.const (.int 0)) (.sim (.const (.long 3))) =
        .ok ⟨[some (.sim (.const (.long 3))), none], [.unresolved .one], some 2⟩ := by
      decide +kernel
    obtain ⟨H, hH, hle⟩ := hstep 0
    cases hfailed.symm.trans hH
    exact ⟨_, _, hfailed, hblurred, rfl, rfl, hle⟩

end FrameFlow
