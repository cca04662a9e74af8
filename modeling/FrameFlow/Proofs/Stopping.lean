import FrameFlow.Proofs.Growth

/-!
# What stops a run

A run is stopped by a frame that does not fit, or by a failed call that the
policy does not tolerate.  Where every failure is tolerated, and where hosts are
not asked, only frames are left.
-/

namespace FrameFlow

variable {σ : Type}

namespace Config

def Lenient (cfg : Config σ) : Prop :=
  ∃ policy, cfg.policy = some policy ∧ ∀ m frames world, (policy m frames world).1 = true

theorem simulateCall_constants {cfg : Config σ} (hmode : cfg.mode = .constants)
    (position : Nat) (m : MethodRef) (args : List Value) (answer : Option Value) (world : σ) :
    cfg.simulateCall position m args answer world = (.ok answer, world) := by
  simp [simulateCall, hmode]

private theorem staticCall_constants {cfg : Config σ} (hmode : cfg.mode = .constants)
    (position : Nat) (m : MethodRef) (args : List Value) (world : σ) :
    ∃ result, (cfg.staticCall position m args world).1 = .ok result := by
  unfold staticCall
  split
  · exact ⟨_, by rw [simulateCall_constants hmode]⟩
  · simp only
    split
    · exact ⟨_, by rw [simulateCall_constants hmode]⟩
    · exact ⟨_, rfl⟩

theorem ofFrame_ne_simulation {result : Except FrameError Frame} {f : Failure} :
    Fault.ofFrame result ≠ .error (.simulation f) := by
  cases result <;> simp [Fault.ofFrame]

private theorem transfer_constants {cfg : Config σ} (hmode : cfg.mode = .constants) {position : Nat}
    {insn : Insn Nat} {F : Frame} {world : σ} {f : Failure} :
    (cfg.transfer position insn F world).1 ≠ .error (.simulation f) := by
  unfold transfer
  split
  · exact ofFrame_ne_simulation
  · rename_i m
    split
    · simp
    · rename_i args G _
      obtain ⟨result, hresult⟩ := staticCall_constants hmode position m args world
      cases hcall : cfg.staticCall position m args world with
      | mk answer world' =>
          rw [hcall] at hresult
          simp only at hresult
          subst hresult
          exact ofFrame_ne_simulation
  · exact ofFrame_ne_simulation

end Config

namespace Run

variable {p : Problem σ}

inductive Halts (p : Problem σ) : Error → Prop
  | frame (position : Nat) (cause : FrameError) : Halts p (.frame position cause)
  | refused {S : Run σ} {position : Nat} {insn : Insn Nat} {F : Frame} {world : σ}
      {f : Failure} :
      (p.config.transfer position insn F world).1 = .error (.simulation f) →
      (S.tolerates p).1 = false → Halts p (.simulation f)

private theorem Stops.halts {position : Nat} {insn : Insn Nat} {F : Frame} {world : σ} {e : Error}
    (h : Stops p position insn F world e) : Halts p e := by
  cases h with
  | thrown _ _ _ => exact .frame _ _
  | normal _ => exact .frame _ _
  | refused hfailed hrefused => exact .refused hfailed hrefused

/--
Whatever has stopped a run is an error of a visit or of a merge, of frames that
have every property that lasts.
-/
theorem Leads.stopped_of {P : Frame → Prop} (hP : Frame.Lasting P) {Q : Error → Prop}
    (hmerge : ∀ {F G cause} (target : Nat), P F → P G → F.merge G = .error cause →
      Q (.frame target cause))
    (hstops : ∀ {position insn F world e}, p.method.code[position]? = some insn → P F →
      Stops p position insn F world e → Q e)
    {S T : Run σ} (h : Leads p S T) (hframes : AllFrames P S) (hS : S.stopped = none) (e : Error)
    (he : T.stopped = some e) : Q e := by
  have hstopped : AllFrames P T ∧ ∀ e, T.stopped = some e → Q e := by
    apply h.invariant (P := fun T : Run σ => AllFrames P T ∧ ∀ e, T.stopped = some e → Q e)
    · refine ⟨hframes, fun e he => ?_⟩
      rw [hS] at he
      cases he
    · intro T i _ hT _ _
      apply visit_induction (P := fun T : Run σ => AllFrames P T ∧ ∀ e, T.stopped = some e → Q e)
        (S := T.taken i) ?_ ?_ ?_ hT
      · intro U V hquiet hU
        refine ⟨hU.1.quiet hquiet, fun e he => ?_⟩
        rw [hquiet.stopped] at he
        exact hU.2 e he
      · intro U insn F target H hF _ hoffers hU
        have hH : P H := hoffers.kept hP.toKept (hT.1 i F hF)
        refine ⟨hU.1.offer hP.merge hH, ?_⟩
        apply offer_induction (P := fun V : Run σ => ∀ e, V.stopped = some e → Q e) hU.2
        · intro G cause hG hfails e he
          cases he
          exact hmerge target (hU.1 target G hG) hH hfails
        · intro H' _
          exact hU.2
      · intro U insn F e hF hinsn hstop hU
        refine ⟨hU.1, fun e' he' => ?_⟩
        cases he'
        exact hstops hinsn (hT.1 i F hF) hstop
  exact hstopped.2 e he

theorem Leads.halted {S T : Run σ} (h : Leads p S T) (hS : S.stopped = none) (e : Error)
    (he : T.stopped = some e) : Halts p e := by
  have hany : Frame.Lasting fun _ => True :=
    ⟨⟨⟨fun _ _ => trivial, fun _ _ => trivial⟩, fun _ _ => trivial⟩, fun _ _ _ => trivial⟩
  exact h.stopped_of hany (fun target _ _ _ => .frame target _) (fun _ _ hstop => hstop.halts)
    (fun _ _ _ => trivial) hS e he

private theorem tolerates_of_lenient (h : p.config.Lenient) (S : Run σ) :
    (S.tolerates p).1 = true := by
  obtain ⟨policy, hpolicy, hyes⟩ := h
  simp only [tolerates, hpolicy]
  exact hyes _ _ _

theorem Halts.frame_of_lenient {e : Error} (h : Halts p e) (hlenient : p.config.Lenient) :
    ∃ i cause, e = .frame i cause := by
  cases h with
  | frame i cause => exact ⟨i, cause, rfl⟩
  | refused _ hrefused =>
      rw [tolerates_of_lenient hlenient] at hrefused
      cases hrefused

theorem Halts.frame_of_constants {e : Error} (h : Halts p e)
    (hmode : p.config.mode = .constants) : ∃ i cause, e = .frame i cause := by
  cases h with
  | frame i cause => exact ⟨i, cause, rfl⟩
  | refused hfailed _ => exact absurd hfailed (Config.transfer_constants hmode)

end Run

end FrameFlow
