import FrameFlow.Proofs.Calls
import FrameFlow.Proofs.Shape

/-!
# Calls that are skipped

A static call that fails in the host and is tolerated counts as one with an
unresolved result.  The two ways through a call take the same values off the
stack, and whatever a source or a host answers is pushed in the width of the
declared result.  So skipping overflows exactly when any answer does, and the
frame it leaves lies above the frame after any answer.
-/

namespace FrameFlow

variable {σ : Type}

/-- The static call of the method with its result left open, as a tolerated failure counts. -/
def MethodRef.skip (m : MethodRef) (F : Frame) : Except FrameError Frame :=
  (Insn.invoke .static m : Insn Nat).effect F

/-! ## What a skipped call leaves -/

namespace Frame

variable {F G K : Frame}

def skipped (F : Frame) (m : MethodRef) : Frame :=
  { F with stack := m.unresolvedResult.toList ++ F.stack.drop m.type.params.length }

private theorem popWidths_rest {ws : List Width} {vs : List Value}
    (h : F.popWidths ws = .ok (vs, G)) :
    G = { F with stack := F.stack.drop ws.length } := by
  obtain ⟨hstack, rfl⟩ := stack_of_popWidths h
  have hlength : (vs.map Value.width).length = vs.reverse.length := by simp
  rw [hstack, hlength, List.drop_left]
  exact eq_of_clearStack ((held_clearStack F).ensures_popWidths rfl _ _ h)

private theorem pushResult_ok {result : Option Value} (h : G.pushResult result = .ok K) :
    K = { G with stack := result.toList ++ G.stack } := by
  cases result with
  | none =>
      cases h
      rfl
  | some v => exact (push_ok_iff.1 h).2

private theorem pushResult_error {result : Option Value} {e : FrameError}
    (h : G.pushResult result = .error e) : ∃ limit, e = .stackOverflow limit := by
  cases result with
  | none => cases h
  | some v =>
      simp only [pushResult, push] at h
      split at h
      · cases h
      · split at h <;> cases h
        exact ⟨_, rfl⟩

private theorem pushResult_below {x y : Option Value} (h : Option.Rel (fun a b => a ≤ b) x y) :
    Concurs (fun _ => False) (fun H K => SameShape H K ∧ H ≤ K) (G.pushResult x)
      (G.pushResult y) := by
  cases h with
  | none => exact .ok ⟨⟨rfl, rfl⟩, le_refl G⟩
  | @some a b hab =>
      have hwidth := Value.width_eq_of_le hab
      have hle : ({ G with stack := a :: G.stack } : Frame) ≤ { G with stack := b :: G.stack } :=
        ⟨⟨rfl, rfl⟩, fun _ c hc => ⟨c, hc, le_refl c⟩, .cons hab (le_refl G).stack⟩
      have hshape : SameShape { G with stack := a :: G.stack } { G with stack := b :: G.stack } :=
        ⟨by simp [hwidth], rfl⟩
      simp only [pushResult, push, hwidth]
      split
      · exact .ok ⟨hshape, hle⟩
      · split
        · exact .ok ⟨hshape, hle⟩
        · exact .error _

end Frame

private theorem MethodRef.skip_eq (m : MethodRef) (F : Frame) :
    m.skip F = F.popWidths m.paramWidths >>= fun x => x.2.pushResult m.unresolvedResult := by
  simp only [skip, Insn.effect, InvokeKind.effect, Frame.dropWidths_eq]
  cases F.popWidths m.paramWidths <;> rfl

/-! ## What answers leave -/

namespace Config

variable {cfg : Config σ} {world : σ} {position : Nat} {m : MethodRef} {F : Frame}

private theorem callResult_below (cfg : Config σ) (world : σ) (position : Nat) (m : MethodRef)
    (args : List Value) :
    Option.Rel (fun a b => a ≤ b) (cfg.callResult world position m args) m.unresolvedResult := by
  have hwidth := cfg.callResult_width world position m args
  unfold MethodRef.unresolvedResult
  rw [← hwidth]
  cases cfg.callResult world position m args with
  | none => exact .none
  | some v => exact .some (Value.le_unresolved rfl)

/-- Whatever is answered, the call overflows where skipping does and stays below it. -/
theorem onward_below (cfg : Config σ) (world : σ) (position : Nat) (m : MethodRef) (F : Frame) :
    Concurs (fun _ => False) (fun H K => Frame.SameShape H K ∧ H ≤ K)
      (cfg.onward world position (.invoke .static m) F) (m.skip F) := by
  rw [onward_invokeStatic, MethodRef.skip_eq]
  cases F.popWidths m.paramWidths with
  | error e => exact .error e
  | ok x => exact Frame.pushResult_below (cfg.callResult_below world position m x.1)

private theorem transfer_eq_onward {insn : Insn Nat}
    (h : ∀ f, (cfg.transfer position insn F world).1 ≠ .error (.simulation f)) :
    (cfg.transfer position insn F world).1 = Fault.ofFrame (cfg.onward world position insn F) := by
  unfold onward
  cases htransfer : (cfg.transfer position insn F world).1 with
  | ok G => rfl
  | error fault =>
      cases fault with
      | frame cause => rfl
      | simulation f => exact absurd htransfer (h f)

private theorem popWidths_of_failed {f : Failure}
    (h : (cfg.transfer position (.invoke .static m) F world).1 = .error (.simulation f)) :
    ∃ args G, F.popWidths m.paramWidths = .ok (args, G) := by
  simp only [transfer] at h
  cases hpop : F.popWidths m.paramWidths with
  | error e => simp [hpop] at h
  | ok x => exact ⟨x.1, x.2, rfl⟩

/--
Where a static call fails in the host, skipping it succeeds or overflows the stack.
If it succeeds, the arguments have been replaced by an unresolved result of the
declared width and nothing else has changed.  In any configuration and world where
the call does not fail in the host, it overflows exactly when skipping does, and
otherwise it succeeds with a frame of the same shape below the one after skipping.
-/
theorem skip_above_answers {f : Failure}
    (h : (cfg.transfer position (.invoke .static m) F world).1 = .error (.simulation f)) :
    ((∃ K, m.skip F = .ok K) ∨ ∃ limit, m.skip F = .error (.stackOverflow limit)) ∧
    (∀ K, m.skip F = .ok K →
      (F.arguments m).map Value.width = m.paramWidths ∧ K = F.skipped m) ∧
    ∀ (τ : Type) (other : Config τ) (world' : τ),
      (∀ f', (other.transfer position (.invoke .static m) F world').1 ≠
        .error (.simulation f')) →
      (∀ limit, (other.transfer position (.invoke .static m) F world').1 =
          .error (.frame (.stackOverflow limit)) ↔ m.skip F = .error (.stackOverflow limit)) ∧
      ((∀ limit, m.skip F ≠ .error (.stackOverflow limit)) →
        ∃ H K, (other.transfer position (.invoke .static m) F world').1 = .ok H ∧
          m.skip F = .ok K ∧ Frame.SameShape H K ∧ H ≤ K) := by
  obtain ⟨args, G, hpop⟩ := popWidths_of_failed h
  have hskip : m.skip F = G.pushResult m.unresolvedResult := by
    rw [MethodRef.skip_eq, hpop]
    rfl
  have hcases : (∃ K, m.skip F = .ok K) ∨ ∃ limit, m.skip F = .error (.stackOverflow limit) := by
    rw [hskip]
    cases hpush : G.pushResult m.unresolvedResult with
    | ok K => exact .inl ⟨K, rfl⟩
    | error e =>
        obtain ⟨limit, rfl⟩ := Frame.pushResult_error hpush
        exact .inr ⟨limit, rfl⟩
  refine ⟨hcases, ?_, ?_⟩
  · intro K hK
    obtain ⟨harguments, hwidths⟩ := Frame.arguments_of_popWidths hpop
    rw [hskip] at hK
    refine ⟨harguments ▸ hwidths, ?_⟩
    rw [Frame.pushResult_ok hK, Frame.popWidths_rest hpop]
    simp [Frame.skipped, MethodRef.paramWidths]
  · intro τ other world' hanswered
    rw [transfer_eq_onward hanswered]
    rcases (other.onward_below world' position m F).cases_of_strict fun _ => id with
      ⟨e, hother, heffect⟩ | ⟨H, K, hother, heffect, hbelow⟩
    · rw [hother, heffect]
      refine ⟨fun limit => by simp [Fault.ofFrame], fun hfits => ?_⟩
      rcases hcases with ⟨K, hK⟩ | ⟨limit, hlimit⟩
      · cases heffect.symm.trans hK
      · exact absurd (heffect.symm.trans hlimit) (hfits limit)
    · rw [hother, heffect]
      exact ⟨fun limit => by simp [Fault.ofFrame], fun _ => ⟨H, K, rfl, rfl, hbelow⟩⟩

end Config

def exchange : MethodRef :=
  ⟨"Rates", "exchange", ⟨[.base .long, .base .int], some (.base .double)⟩⟩

def midnight : MethodRef :=
  ⟨"Clock", "midnight", ⟨[], some (.base .long)⟩⟩

def closed : Config Nat where
  mode := .simulated
  host := some fun _ _ count => (.error ⟨.targetException, "closed"⟩, count + 1)

def informed : Config Unit where
  calls := some fun _ _ world => (some (.const (.double 0)), world)

def purchase : Frame :=
  ⟨[some (.ref "Ledger")], [.const (.int 2), .const (.long 7), .ref "Order"], some 4⟩

def receipt : Frame :=
  ⟨[some (.ref "Ledger")], [.ref "Order"], some 2⟩

theorem exchange_skipped :
    (∃ f H K, (closed.transfer 3 (.invoke .static exchange) purchase 0).1 =
          .error (.simulation f) ∧
        (informed.transfer 3 (.invoke .static exchange) purchase ()).1 = .ok H ∧
        H.stack = [.const (.double 0), .ref "Order"] ∧ exchange.skip purchase = .ok K ∧
        K = purchase.skipped exchange ∧ K.stack = [.unresolved .two, .ref "Order"] ∧
        Frame.SameShape H K ∧ H ≤ K) ∧
      ∃ f, (closed.transfer 3 (.invoke .static midnight) receipt 0).1 = .error (.simulation f) ∧
        midnight.skip receipt = .error (.stackOverflow 2) ∧
        (informed.transfer 3 (.invoke .static midnight) receipt ()).1 =
          .error (.frame (.stackOverflow 2)) := by
  constructor
  · have hclosed : (closed.transfer 3 (.invoke .static exchange) purchase 0).1 =
        .error (.simulation ⟨3, exchange, .hostError, ⟨.targetException, "closed"⟩⟩) := by cbv
    have hinformed : (informed.transfer 3 (.invoke .static exchange) purchase ()).1 =
        .ok { purchase with stack := [.const (.double 0), .ref "Order"] } := by cbv
    have hskip : exchange.skip purchase =
        .ok { purchase with stack := [.unresolved .two, .ref "Order"] } := by cbv
    obtain ⟨_, hframe, hothers⟩ := Config.skip_above_answers hclosed
    obtain ⟨_, hbelow⟩ := hothers Unit informed () (by simp [hinformed])
    obtain ⟨H, K, hH, hK, hshape, hle⟩ := hbelow (by simp [hskip])
    cases hinformed.symm.trans hH
    cases hskip.symm.trans hK
    exact ⟨_, _, _, hclosed, hinformed, rfl, hskip, (hframe _ hskip).2, rfl, hshape, hle⟩
  · have hclosed : (closed.transfer 3 (.invoke .static midnight) receipt 0).1 =
        .error (.simulation ⟨3, midnight, .hostError, ⟨.targetException, "closed"⟩⟩) := by cbv
    have hskip : midnight.skip receipt = .error (.stackOverflow 2) := by cbv
    have hanswered (f : Failure) :
        (informed.transfer 3 (.invoke .static midnight) receipt ()).1 ≠ .error (.simulation f) := by
      cbv
      simp
    obtain ⟨_, _, hothers⟩ := Config.skip_above_answers hclosed
    exact ⟨_, hclosed, hskip, ((hothers Unit informed () hanswered).1 2).2 hskip⟩

end FrameFlow
