import FrameFlow.Proofs.FixedPoint
import Mathlib.Algebra.Order.BigOperators.Group.List
import Mathlib.Algebra.Order.Group.Nat
import Mathlib.Logic.Function.Iterate

/-!
# How long a run can take

A frame changes by climbing, and it has at most three climbs for a local and two
for a stack entry: a simulated constant, a constant, an unresolved value, and an
empty local above them.  An instruction becomes pending with its first frame and
with every climb after that, so the instructions with frames pay for all steps.

Nothing is asked of the sources, the host or the policy, which may answer
differently every time.
-/

namespace FrameFlow

attribute [local instance] numeralZero

variable {σ : Type}

/-! ## Climbs -/

private theorem Value.climbs_le (v : Value) : v.climbs ≤ 2 := by
  match v with
  | unresolved _ => simp [climbs]
  | const _ => simp [climbs]
  | ref _ => simp [climbs]
  | sim (.object _ _) => simp [climbs]
  | sim (.const _) => simp [climbs]

private theorem Frame.localClimbs_le (slot : Option Value) : localClimbs slot ≤ 3 := by
  cases slot with
  | none => simp [localClimbs]
  | some v =>
      have := v.climbs_le
      simp only [localClimbs]
      omega

private theorem Frame.climbs_le (F : Frame) :
    F.climbs ≤ 3 * F.locals.length + 2 * F.stack.length := by
  have hlocals := List.sum_le_card_nsmul (F.locals.map localClimbs) 3
    (List.forall_mem_map.2 fun slot _ => localClimbs_le slot)
  have hstack := List.sum_le_card_nsmul (F.stack.map Value.climbs) 2
    (List.forall_mem_map.2 fun v _ => v.climbs_le)
  simp only [List.length_map, Nat.nsmul_eq_mul] at hlocals hstack
  unfold climbs
  omega

private theorem Frame.stack_length_eq {R : Value → Value → Prop} {F G : Frame}
    (h : Frame.Rel R F G) :
    F.stack.length = G.stack.length :=
  h.stack.length_eq

/-! ## What frames pay for -/

def Method.allowance (m : Method) : Option Frame → Nat
  | none => 0
  | some F => 1 + 3 * m.maxLocals + 2 * F.stack.length

private theorem Method.allowance_of_le {m : Method} {F G : Frame} (h : F ≤ G) :
    m.allowance (some F) = m.allowance (some G) := by
  simp only [allowance, Frame.stack_length_eq h]

private theorem Method.climbs_lt_allowance {m : Method} {F : Frame} (h : F.Of m) :
    F.climbs < m.allowance (some F) := by
  have := F.climbs_le
  rw [h.size] at this
  simp only [allowance]
  omega

namespace Run

variable {p : Problem σ}

def allowance (m : Method) (S : Run σ) : Nat :=
  (S.frames.toList.map m.allowance).sum

/-- The frames pay for the steps taken, the pending instructions and the climbs left. -/
def Paid (m : Method) (S : Run σ) : Prop :=
  S.steps + S.pending.length + S.slack ≤ S.allowance m

private theorem install_allowance {m : Method} {S : Run σ} {target : Nat} {slot : Option Frame}
    {H : Frame} (hslot : S.frames[target]? = some slot) :
    (S.install p target H).allowance m + m.allowance slot =
      S.allowance m + m.allowance (some H) := by
  obtain ⟨hlt, hget⟩ := Array.getElem?_eq_some_iff.1 hslot
  have hsum := sum_map_set m.allowance S.frames.toList (some H) (by simpa using hlt)
  rw [Array.getElem_toList, hget] at hsum
  simp only [allowance, install_frames]
  exact hsum

private theorem install_pending_length (S : Run σ) (target : Nat) (H : Frame) :
    (S.install p target H).pending.length ≤ S.pending.length + 1 := by
  have hlength := enqueue_length (p := p) target S.pending
  simp only [Run.install]
  omega

private theorem Paid.install {S : Run σ} (h : S.Paid p.method)
    (hS : AllFrames (Frame.Of p.method) S) {target : Nat} {F H : Frame}
    (hF : F.Of p.method) (hraise : S.Raises target F H) :
    (S.install p target H).Paid p.method := by
  have hpending := install_pending_length (p := p) S target H
  have hsteps : (S.install p target H).steps = S.steps := rfl
  unfold Paid at h ⊢
  rcases hraise with ⟨hnone, rfl⟩ | ⟨G, hG, hmerge⟩
  · -- A first frame pays for its climbs and for being pending.
    have hslack := install_slack (p := p) (H := H) hnone
    have hallowance := install_allowance (p := p) (m := p.method) (H := H) hnone
    have hclimbs := Method.climbs_lt_allowance hF
    simp only [frameClimbs, Method.allowance] at hslack hallowance hclimbs
    omega
  · -- A raised frame is pending for the climb it has used up.
    have hslack := install_slack (p := p) (H := H) hG
    have hallowance := install_allowance (p := p) (m := p.method) (H := H) hG
    have hclimbs := Frame.merge_climbs hmerge
    have hle := (Frame.le_merge ((hS target G hG).alike hF) hmerge).1
    rw [Method.allowance_of_le hle] at hallowance
    simp only [frameClimbs] at hslack
    omega

private theorem Paid.offer {S : Run σ} (h : S.Paid p.method) (hS : AllFrames (Frame.Of p.method) S)
    {target : Nat} {F : Frame} (hF : F.Of p.method) : (S.offer p target F).Paid p.method :=
  offer_induction h (fun _ _ _ _ => h) fun _ hraise => h.install hS hF hraise

private theorem Paid.quiet {m : Method} {S T : Run σ} (hST : Quiet S T) (h : S.Paid m) :
    T.Paid m := by
  unfold Paid allowance slack at h ⊢
  rw [hST.steps, hST.pending, hST.frames]
  exact h

private theorem Paid.taken {m : Method} {S : Run σ} {i : Nat} (hi : i ∈ S.pending) (h : S.Paid m) :
    (S.taken i).Paid m := by
  have hlength := List.length_erase_of_mem hi
  have hpos := List.length_pos_of_mem hi
  unfold Paid at h ⊢
  simp only [Run.taken, slack, allowance] at h ⊢
  omega

private theorem Paid.pick {S : Run σ} (h : S.Paid p.method) (hS : AllFrames (Frame.Of p.method) S)
    {i : Nat} (hi : i ∈ S.pending) : (S.pick p i).Paid p.method := by
  have hlasting := Frame.lasting_of p.method
  have hboth : AllFrames (Frame.Of p.method) (S.pick p i) ∧ (S.pick p i).Paid p.method := by
    refine visit_induction (S := S.taken i)
      (P := fun T => AllFrames (Frame.Of p.method) T ∧ T.Paid p.method) ?_ ?_ ?_ ⟨hS, h.taken hi⟩
    · intro S T hquiet hS
      exact ⟨hS.1.quiet hquiet, hS.2.quiet hquiet⟩
    · intro T insn F target H hF _ hoffers hT
      have hH : H.Of p.method := hoffers.kept hlasting.toKept (hS i F hF)
      exact ⟨hT.1.offer hlasting.merge hH, hT.2.offer hT.1 hH⟩
    · intro T insn F e _ _ _ hT
      exact hT
  exact hboth.2

private theorem begin_paid {seed : Frame} (hseed : seed.Of p.method)
    (hsize : 0 < p.method.code.size) (start : σ) : (Config.begin p seed start).Paid p.method := by
  have hblank : (blank p start).Paid p.method := by
    simp [Paid, blank, slack, frameClimbs]
  exact hblank.install (fun _ _ hF => absurd hF blank_frames) hseed
    (.inl ⟨blank_entry hsize, rfl⟩)

theorem Leads.paid {seed : Frame} {start : σ} {T : Run σ} (hseed : seed.Of p.method)
    (hsize : 0 < p.method.code.size) (h : Leads p (Config.begin p seed start) T) :
    T.Paid p.method := by
  refine h.invariant (P := Paid p.method) (begin_paid hseed hsize start) ?_
  intro T i hT hpaid _ hi
  exact hpaid.pick (hT.allFrames (Frame.lasting_of p.method) (begin_allFrames hseed start)) hi

/-! ## Steps -/

private theorem visit_steps (S : Run σ) (i : Nat) : (S.visit p i).steps = S.steps := by
  refine visit_induction (P := fun T : Run σ => T.steps = S.steps) ?_ ?_ ?_ rfl
  · intro T U hquiet hT
    exact hquiet.steps.trans hT
  · intro T insn F target H _ _ _ hT
    exact offer_induction (P := fun T : Run σ => T.steps = S.steps) hT
      (fun _ _ _ _ => hT) fun _ _ => hT
  · intro T insn F e _ _ _ hT
    exact hT

theorem step_steps {S : Run σ} (h : S.isRunning = true) : (S.step p).steps = S.steps + 1 := by
  obtain ⟨_, hpending⟩ := isRunning_iff.1 h
  unfold step
  cases hlist : S.pending with
  | nil => exact absurd hlist hpending
  | cons i rest => exact visit_steps _ i

theorem solve_iterate (p : Problem σ) (S : Run σ) :
    ∃ n, (step p)^[n] S = S.solve p ∧ (∀ k < n, ((step p)^[k] S).isRunning = true) ∧
      (S.solve p).steps = S.steps + n := by
  induction S using Run.solve.induct p with
  | case1 S hrunning ih =>
      obtain ⟨n, hn, hbefore, hsteps⟩ := ih
      rw [solve, dif_pos hrunning]
      refine ⟨n + 1, hn, fun k hk => ?_, ?_⟩
      · cases k with
        | zero => exact hrunning
        | succ k => exact hbefore k (by omega)
      · rw [hsteps, step_steps hrunning]
        omega
  | case2 S hended =>
      rw [solve, dif_neg hended]
      exact ⟨0, rfl, fun k hk => by omega, rfl⟩

end Run

namespace Config

/--
Solving ends after at most as many steps as the frames at its end pay for.  The
same holds on the way, in any order, where stacks keep their heights.
-/
theorem solve_steps_le (cfg : Config σ) {m : Method} {g : FlowGraph} {seed : Frame}
    (hgraph : m.graph = .ok g) (hseed : m.entryFrame = .ok seed) (start : σ) :
    (∃ n, (Run.step (cfg.problem m g))^[n] (begin (cfg.problem m g) seed start) =
          cfg.solved m g seed start ∧
        (∀ k < n, ((Run.step (cfg.problem m g))^[k]
          (begin (cfg.problem m g) seed start)).isRunning = true) ∧
        (cfg.solved m g seed start).isRunning = false ∧
        (cfg.solved m g seed start).steps = n ∧
        n ≤ ((cfg.solved m g seed start).frames.toList.map m.allowance).sum) ∧
      (∀ T, Run.Leads (cfg.problem m g) (begin (cfg.problem m g) seed start) T →
        T.steps ≤ (T.frames.toList.map m.allowance).sum) ∧
      ∀ S T i F, Run.Leads (cfg.problem m g) (begin (cfg.problem m g) seed start) S →
        Run.Leads (cfg.problem m g) S T → S.frame? i = some F →
          ∃ G, T.frame? i = some G ∧ G.stack.length = F.stack.length := by
  have hof : seed.Of m := Method.entryFrame_of hseed
  have hsteps (T : Run σ)
      (h : Run.Leads (cfg.problem m g) (begin (cfg.problem m g) seed start) T) :
      T.steps ≤ (T.frames.toList.map m.allowance).sum := by
    have hpaid : T.Paid m := h.paid hof (Method.code_size_pos hgraph)
    simp only [Run.Paid, Run.allowance] at hpaid
    omega
  obtain ⟨n, hn, hbefore, hcount⟩ :=
    Run.solve_iterate (cfg.problem m g) (begin (cfg.problem m g) seed start)
  have hzero : (begin (cfg.problem m g) seed start).steps = 0 := rfl
  rw [hzero, Nat.zero_add] at hcount
  have hbound := hsteps _ (cfg.solved_leads m g seed start)
  refine ⟨⟨n, hn, hbefore, cfg.solved_ended m g seed start, hcount, ?_⟩, hsteps, ?_⟩
  · rw [← hcount]
    exact hbound
  intro S T i F hS hST hF
  have hframes : Run.AllFrames (Frame.Of m) S :=
    hS.allFrames (Frame.lasting_of m) (Run.begin_allFrames hof start)
  obtain ⟨G, hG, hFG⟩ := hST.frames_le hframes (Run.frame?_eq_some.1 hF)
  exact ⟨G, Run.frame?_eq_some.2 hG, (Frame.stack_length_eq hFG).symm⟩

end Config

def counting : Config Nat where
  mode := .simulated
  host := some fun _ _ count => (.ok (some (.const (.int (Int32.ofNat count)))), count + 1)

theorem retry_steps_le :
    retry.graph = .ok retry.edgeGraph ∧ retry.entryFrame = .ok ⟨[none], [], some 2⟩ ∧
      (counting.solved retry retry.edgeGraph ⟨[none], [], some 2⟩ 0).steps = 16 ∧
      16 ≤ ((counting.solved retry retry.edgeGraph ⟨[none], [], some 2⟩ 0).frames.toList.map
        retry.allowance).sum := by
  have hgraph : retry.graph = .ok retry.edgeGraph := by cbv
  have hseed : retry.entryFrame = .ok ⟨[none], [], some 2⟩ := by cbv
  have hsteps : (counting.solved retry retry.edgeGraph ⟨[none], [], some 2⟩ 0).steps = 16 := by
    cbv
  obtain ⟨⟨n, _, _, _, hn, hbound⟩, _⟩ := counting.solve_steps_le hgraph hseed 0
  rw [← hn, hsteps] at hbound
  exact ⟨hgraph, hseed, hsteps, hbound⟩

end FrameFlow
