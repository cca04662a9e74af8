import FrameFlow.Analysis
import FrameFlow.Proofs.Answers

/-!
# What a visit can do

A visit of an instruction offers frames to its handlers and to its normal
successors, and it may stop the run.  `Offers` and `Stops` say which frames and
which errors these can be; a property of runs that such offers and stops keep is
kept by the visit.

Runs are followed for every order in which pending instructions are taken; the
run that takes them by rank is one of them.
-/

namespace FrameFlow.Run

variable {σ : Type}

/-- The frames offered by a visit of `insn` with entry frame `F`, and to whom. -/
inductive Offers (p : Problem σ) (position : Nat) (insn : Insn Nat) (F : Frame) (world : σ) :
    Nat → Frame → Prop
  | thrown {e : Edge} {catchClass : Option String} {H : Frame} :
      e ∈ p.graph.thrownEdges position → e.kind = .thrown catchClass →
      handlerFrame F catchClass = .ok H → Offers p position insn F world e.target H
  | normal {e : Edge} {H : Frame} :
      e ∈ p.graph.normalEdges position → p.config.onward world position insn F = .ok H →
      Offers p position insn F world e.target H

inductive Stops (p : Problem σ) (position : Nat) (insn : Insn Nat) (F : Frame) (world : σ) :
    Error → Prop
  | thrown {e : Edge} {catchClass : Option String} {cause : FrameError} :
      e ∈ p.graph.thrownEdges position → e.kind = .thrown catchClass →
      handlerFrame F catchClass = .error cause →
      Stops p position insn F world (.frame position cause)
  | normal {cause : FrameError} :
      p.config.onward world position insn F = .error cause →
      Stops p position insn F world (.frame position cause)
  | refused {S : Run σ} {f : Failure} :
      (p.config.transfer position insn F world).1 = .error (.simulation f) →
      (S.tolerates p).1 = false → Stops p position insn F world (.simulation f)

variable {p : Problem σ}

/-! ## Pending instructions -/

@[simp] theorem mem_enqueue {i j : Nat} {pending : List Nat} :
    j ∈ p.enqueue i pending ↔ j = i ∨ j ∈ pending := by
  induction pending with
  | nil => simp [Problem.enqueue]
  | cons k rest ih =>
      unfold Problem.enqueue
      split
      · rename_i heq
        subst heq
        simp
      · split
        · simp
        · simp only [List.mem_cons, ih]
          tauto

theorem enqueue_length (i : Nat) (pending : List Nat) :
    (p.enqueue i pending).length = pending.length + 1 ∨
      (i ∈ pending ∧ (p.enqueue i pending).length = pending.length) := by
  induction pending with
  | nil => exact .inl rfl
  | cons j rest ih =>
      unfold Problem.enqueue
      split
      · rename_i heq
        exact .inr ⟨by simp [heq], rfl⟩
      · split
        · exact .inl rfl
        · rcases ih with hlonger | ⟨hmem, hsame⟩
          · exact .inl (by simp [hlonger])
          · exact .inr ⟨by simp [hmem], by simp [hsame]⟩

/-! ## One offer -/

/-- An offer of `F` gives the target the frame `H`, its first one or a changed one. -/
def Raises (S : Run σ) (target : Nat) (F H : Frame) : Prop :=
  (S.frames[target]? = some none ∧ H = F) ∨
    ∃ G, S.frames[target]? = some (some G) ∧ G.merge F = .ok (H, true)

theorem offer_cases (p : Problem σ) (S : Run σ) (target : Nat) (F : Frame) :
    (S.offer p target F = S ∧ (S.stopped ≠ none ∨ S.frames.size ≤ target ∨
        ∃ G, S.frames[target]? = some (some G) ∧ G.merge F = .ok (G, false))) ∨
      (S.stopped = none ∧ ∃ G cause, S.frames[target]? = some (some G) ∧
        G.merge F = .error cause ∧ S.offer p target F = S.stop (.frame target cause)) ∨
      (S.stopped = none ∧ ∃ H, S.Raises target F H ∧
        S.offer p target F = S.install p target H) := by
  unfold offer
  cases hstopped : S.stopped with
  | some e => exact .inl ⟨by simp, .inl (by simp)⟩
  | none =>
      simp only [Option.isSome_none, Bool.false_eq_true, if_false]
      cases hslot : S.frames[target]? with
      | none =>
          rw [Array.getElem?_eq_none_iff] at hslot
          exact .inl ⟨rfl, .inr (.inl hslot)⟩
      | some slot =>
          cases slot with
          | none => exact .inr (.inr ⟨trivial, F, .inl ⟨hslot, rfl⟩, rfl⟩)
          | some G =>
              cases hmerge : G.merge F with
              | error cause => exact .inr (.inl ⟨trivial, G, cause, rfl, hmerge, by simp [hmerge]⟩)
              | ok result =>
                  obtain ⟨H, changed⟩ := result
                  cases changed with
                  | true =>
                      exact .inr (.inr ⟨trivial, H, .inr ⟨G, hslot, hmerge⟩, by simp [hmerge]⟩)
                  | false =>
                      have hsame := Frame.eq_of_merge_unchanged hmerge
                      subst hsame
                      exact .inl ⟨by simp [hmerge], .inr (.inr ⟨H, rfl, hmerge⟩)⟩

theorem Raises.lt_size {S : Run σ} {target : Nat} {F H : Frame} (h : S.Raises target F H) :
    target < S.frames.size := by
  rcases h with ⟨hnone, _⟩ | ⟨G, hsome, _⟩
  · exact (Array.getElem?_eq_some_iff.1 hnone).1
  · exact (Array.getElem?_eq_some_iff.1 hsome).1

theorem install_self {S : Run σ} {target : Nat} {H : Frame} (h : target < S.frames.size) :
    (S.install p target H).frames[target]? = some (some H) := by
  simp [install, h]

theorem install_ne {S : Run σ} {target i : Nat} {H : Frame} (h : i ≠ target) :
    (S.install p target H).frames[i]? = S.frames[i]? := by
  simp [install, Ne.symm h]

theorem install_frames_cases {S : Run σ} {target i : Nat} {F H : Frame}
    (h : (S.install p target H).frames[i]? = some (some F)) :
    (i = target ∧ F = H) ∨ S.frames[i]? = some (some F) := by
  by_cases hi : i = target
  · subst hi
    have hlt : i < S.frames.size := by
      simpa [install] using (Array.getElem?_eq_some_iff.1 h).1
    rw [install_self hlt] at h
    cases h
    exact .inl ⟨rfl, rfl⟩
  · rw [install_ne hi] at h
    exact .inr h

@[simp] theorem install_size (S : Run σ) (target : Nat) (H : Frame) :
    (S.install p target H).frames.size = S.frames.size := by
  simp [install]

@[simp] theorem mem_install_pending {S : Run σ} {target i : Nat} {H : Frame} :
    i ∈ (S.install p target H).pending ↔ i = target ∨ i ∈ S.pending := by
  simp [install]

theorem offer_induction {P : Run σ → Prop} {S : Run σ} {target : Nat} {F : Frame} (h : P S)
    (hstop : ∀ G cause, S.frames[target]? = some (some G) → G.merge F = .error cause →
      P (S.stop (.frame target cause)))
    (hinstall : ∀ H, S.Raises target F H → P (S.install p target H)) :
    P (S.offer p target F) := by
  rcases offer_cases p S target F with ⟨heq, _⟩ | ⟨_, G, cause, hG, hmerge, heq⟩ |
    ⟨_, H, hraise, heq⟩
  · rw [heq]
    exact h
  · rw [heq]
    exact hstop G cause hG hmerge
  · rw [heq]
    exact hinstall H hraise

/-! ## The cases of a visit -/

theorem fail_cases (S : Run σ) (position : Nat) (insn : Insn Nat) (F : Frame) (f : Failure) :
    ((S.tolerates p).1 = false ∧ S.fail p position insn F f =
        { S with world := (S.tolerates p).2 }.stop (.simulation f)) ∨
      ((S.tolerates p).1 = true ∧ S.fail p position insn F f =
        ({ S with world := (S.tolerates p).2 }.record f).finish p position (insn.effect F)) := by
  unfold fail
  cases S.tolerates p with
  | mk verdict world => cases verdict <;> simp

theorem carryOut_of_stopped {S : Run σ} {e : Error} (h : S.stopped = some e) (position : Nat)
    (insn : Insn Nat) (F : Frame) : S.carryOut p position insn F = S := by
  simp [carryOut, h]

theorem carryOut_cases {S : Run σ} (hstopped : S.stopped = none) (position : Nat)
    (insn : Insn Nat) (F : Frame) :
    ((∀ f, (p.config.transfer position insn F S.world).1 ≠ .error (.simulation f)) ∧
        S.carryOut p position insn F =
          { S with world := (p.config.transfer position insn F S.world).2 }.finish p position
            (p.config.onward S.world position insn F)) ∨
      ∃ f, (p.config.transfer position insn F S.world).1 = .error (.simulation f) ∧
        S.carryOut p position insn F =
          { S with world := (p.config.transfer position insn F S.world).2 }.fail p position
            insn F f := by
  simp only [carryOut, hstopped, Option.isSome_none, Bool.false_eq_true, if_false, Config.onward]
  cases p.config.transfer position insn F S.world with
  | mk result world =>
      cases result with
      | ok G => simp
      | error fault => cases fault <;> simp

theorem visit_cases (S : Run σ) (position : Nat) :
    S.visit p position = S ∨
      ∃ F insn, S.frames[position]? = some (some F) ∧ p.method.code[position]? = some insn ∧
        S.visit p position = (S.offerHandlers p position F).carryOut p position insn F := by
  unfold visit
  split
  · rename_i F insn hF hinsn
    exact .inr ⟨F, insn, hF, hinsn, rfl⟩
  · exact .inl rfl

/-! ## The world -/

@[simp] theorem offer_world (S : Run σ) (target : Nat) (F : Frame) :
    (S.offer p target F).world = S.world := by
  unfold offer
  split
  · rfl
  · split
    · rfl
    · rfl
    · split <;> rfl

@[simp] theorem offerAll_world (S : Run σ) (F : Frame) (edges : List Edge) :
    (S.offerAll p F edges).world = S.world := by
  unfold offerAll
  induction edges generalizing S with
  | nil => rfl
  | cons e edges ih => rw [List.foldl_cons, ih, offer_world]

@[simp] theorem offerHandler_world (position : Nat) (F : Frame) (S : Run σ) (e : Edge) :
    (offerHandler p position F S e).world = S.world := by
  unfold offerHandler
  split
  · rfl
  · split
    · split
      · rfl
      · exact offer_world S e.target _
    all_goals rfl

@[simp] theorem offerHandlers_world (position : Nat) (F : Frame) (S : Run σ) :
    (S.offerHandlers p position F).world = S.world := by
  unfold offerHandlers
  induction p.graph.thrownEdges position generalizing S with
  | nil => rfl
  | cons e edges ih => rw [List.foldl_cons, ih, offerHandler_world]

@[simp] theorem finish_world (S : Run σ) (position : Nat) (result : Except FrameError Frame) :
    (S.finish p position result).world = S.world := by
  cases result with
  | error cause => rfl
  | ok F => exact offerAll_world S F _

@[simp] theorem record_world (S : Run σ) (f : Failure) : (S.record f).world = S.world := by
  unfold record
  split <;> rfl

theorem fail_world (S : Run σ) (position : Nat) (insn : Insn Nat) (F : Frame) (f : Failure) :
    (S.fail p position insn F f).world = (S.tolerates p).2 := by
  rcases fail_cases (p := p) S position insn F f with ⟨_, heq⟩ | ⟨_, heq⟩
  · rw [heq]
    rfl
  · simp [heq]

private theorem carryOut_world {I : σ → Prop} (h : p.config.Repeatable I) {S : Run σ}
    (hworld : I S.world) (position : Nat) (insn : Insn Nat) (F : Frame) :
    I (S.carryOut p position insn F).world := by
  have hkept := (h.transfer position insn F).world hworld
  cases hstopped : S.stopped with
  | some e =>
      rw [carryOut_of_stopped hstopped]
      exact hworld
  | none =>
      rcases carryOut_cases (p := p) hstopped position insn F with ⟨_, heq⟩ | ⟨f, _, heq⟩
      · rw [heq, finish_world]
        exact hkept
      · rw [heq, fail_world]
        unfold tolerates
        split
        · exact hkept
        · rename_i policy hpolicy
          exact h.policy policy hpolicy _ _ _ hkept

private theorem visit_world {I : σ → Prop} (h : p.config.Repeatable I) {S : Run σ}
    (hworld : I S.world) (position : Nat) : I (S.visit p position).world := by
  unfold visit
  split
  · exact carryOut_world h (by simpa using hworld) position _ _
  · exact hworld

/-! ## Induction over a visit -/

/-- The run looks the same from the outside: its world and its failures may differ. -/
structure Quiet (S T : Run σ) : Prop where
  frames : T.frames = S.frames
  pending : T.pending = S.pending
  steps : T.steps = S.steps
  stopped : T.stopped = S.stopped

theorem record_quiet (S : Run σ) (f : Failure) : Quiet S (S.record f) := by
  unfold record
  split <;> exact ⟨rfl, rfl, rfl, rfl⟩

section Induction

variable {P : Run σ → Prop} {position : Nat} {insn : Insn Nat} {F : Frame} {world : σ}
  (hquiet : ∀ {S T : Run σ}, Quiet S T → P S → P T)
  (hoffer : ∀ {T : Run σ} {target H}, Offers p position insn F world target H → P T →
    P (T.offer p target H))
  (hstop : ∀ {T : Run σ} {e}, Stops p position insn F world e → P T → P (T.stop e))

include hoffer in
private theorem offerAll_induction {S : Run σ} {H : Frame}
    (hH : p.config.onward world position insn F = .ok H) (h : P S) :
    P (S.offerAll p H (p.graph.normalEdges position)) := by
  have hedges (edges : List Edge) (hsub : ∀ e ∈ edges, e ∈ p.graph.normalEdges position)
      (S : Run σ) (h : P S) : P (S.offerAll p H edges) := by
    induction edges generalizing S with
    | nil => exact h
    | cons e edges ih =>
        have he := hoffer (.normal (hsub e (by simp)) hH) h
        exact ih (fun e he => hsub e (by simp [he])) _ he
  exact hedges _ (fun _ he => he) S h

include hoffer hstop in
private theorem finish_induction {S : Run σ} {result : Except FrameError Frame}
    (hresult : p.config.onward world position insn F = result) (h : P S) :
    P (S.finish p position result) := by
  cases result with
  | error cause => exact hstop (.normal hresult) h
  | ok H => exact offerAll_induction hoffer hresult h

variable (insn) in
include hoffer hstop in
private theorem offerHandlers_induction {S : Run σ} (h : P S) :
    P (S.offerHandlers p position F) := by
  have hedges (edges : List Edge) (hsub : ∀ e ∈ edges, e ∈ p.graph.thrownEdges position)
      (S : Run σ) (h : P S) : P (edges.foldl (offerHandler p position F) S) := by
    induction edges generalizing S with
    | nil => exact h
    | cons e edges ih =>
        refine ih (fun e he => hsub e (by simp [he])) _ ?_
        have hmem := hsub e (by simp)
        unfold offerHandler
        split
        · exact h
        · split
          · rename_i hkind
            split
            · rename_i hpush
              exact hstop (.thrown hmem hkind hpush) h
            · rename_i hpush
              exact hoffer (.thrown hmem hkind hpush) h
          all_goals exact h
  exact hedges _ (fun _ he => he) S h

include hquiet hoffer hstop in
theorem carryOut_induction {S : Run σ} (hworld : S.world = world) (h : P S) :
    P (S.carryOut p position insn F) := by
  have hworlds (world' : σ) : P { S with world := world' } :=
    hquiet (S := S) ⟨rfl, rfl, rfl, rfl⟩ h
  subst hworld
  cases hstopped : S.stopped with
  | some e =>
      rw [carryOut_of_stopped hstopped]
      exact h
  | none =>
      rcases carryOut_cases (p := p) hstopped position insn F with ⟨_, heq⟩ | ⟨f, hfailed, heq⟩
      · rw [heq]
        exact finish_induction hoffer hstop rfl (hworlds _)
      · rw [heq]
        rcases fail_cases (p := p) _ position insn F f with ⟨hno, heq'⟩ | ⟨_, heq'⟩
        · rw [heq']
          exact hstop (.refused hfailed hno) (hworlds _)
        · rw [heq']
          exact finish_induction hoffer hstop (Config.onward_of_failed hfailed)
            (hquiet (record_quiet _ f) (hworlds _))

end Induction

theorem visit_induction {P : Run σ → Prop} {S : Run σ} {position : Nat}
    (hquiet : ∀ {S T : Run σ}, Quiet S T → P S → P T)
    (hoffer : ∀ {T : Run σ} {insn F target H}, S.frames[position]? = some (some F) →
      p.method.code[position]? = some insn → Offers p position insn F S.world target H →
      P T → P (T.offer p target H))
    (hstop : ∀ {T : Run σ} {insn F e}, S.frames[position]? = some (some F) →
      p.method.code[position]? = some insn → Stops p position insn F S.world e →
      P T → P (T.stop e))
    (h : P S) : P (S.visit p position) := by
  unfold visit
  split
  · rename_i F insn hF hinsn
    refine carryOut_induction hquiet (hoffer hF hinsn) (hstop hF hinsn) (by simp) ?_
    exact offerHandlers_induction insn (hoffer hF hinsn) (hstop hF hinsn) h
  · exact h

/-! ## The course of a visit -/

structure Calm (S T : Run σ) : Prop where
  failures : T.failures = S.failures
  stopped : ∀ f, T.stopped = some (.simulation f) → S.stopped = some (.simulation f)

theorem Calm.refl (S : Run σ) : Calm S S :=
  ⟨rfl, fun _ h => h⟩

theorem Calm.trans {S T U : Run σ} (hST : Calm S T) (hTU : Calm T U) : Calm S U :=
  ⟨hTU.failures.trans hST.failures, fun f h => hST.stopped f (hTU.stopped f h)⟩

theorem Calm.withWorld {S T : Run σ} (h : Calm S T) (world : σ) :
    Calm S { T with world := world } :=
  ⟨h.failures, h.stopped⟩

theorem stop_calm (S : Run σ) (i : Nat) (cause : FrameError) :
    Calm S (S.stop (.frame i cause)) :=
  ⟨rfl, fun _ h => by cases h⟩

private theorem offer_calm (S : Run σ) (target : Nat) (F : Frame) : Calm S (S.offer p target F) :=
  offer_induction (.refl S) (fun _ cause _ _ => stop_calm S target cause)
    fun _ _ => ⟨rfl, fun _ h => h⟩

private theorem offerHandler_calm (position : Nat) (F : Frame) (S : Run σ) (e : Edge) :
    Calm S (offerHandler p position F S e) := by
  unfold offerHandler
  split
  · exact .refl S
  · split
    · split
      · exact stop_calm S position _
      · exact offer_calm S e.target _
    all_goals exact .refl S

theorem offerHandlers_calm (position : Nat) (F : Frame) (S : Run σ) :
    Calm S (S.offerHandlers p position F) := by
  unfold offerHandlers
  induction p.graph.thrownEdges position generalizing S with
  | nil => exact .refl S
  | cons e edges ih => exact (offerHandler_calm position F S e).trans (ih _)

theorem finish_calm (S : Run σ) (position : Nat) (result : Except FrameError Frame) :
    Calm S (S.finish p position result) := by
  cases result with
  | error cause => exact stop_calm S position cause
  | ok F =>
      unfold finish offerAll
      induction p.graph.normalEdges position generalizing S with
      | nil => exact .refl S
      | cons e edges ih => exact (offer_calm S e.target F).trans (ih _)

theorem Calm.record {S T : Run σ} (h : Calm S T) (f : Failure) :
    Calm (S.record f) (T.record f) := by
  constructor
  · unfold Run.record
    rw [h.failures]
    split
    · exact h.failures
    · rfl
  · intro f' hf'
    rw [(record_quiet T f).stopped] at hf'
    rw [(record_quiet S f).stopped]
    exact h.stopped f' hf'

/-! ## Runs in any order -/

def taken (S : Run σ) (i : Nat) : Run σ :=
  { S with pending := S.pending.erase i, steps := S.steps + 1 }

def pick (p : Problem σ) (S : Run σ) (i : Nat) : Run σ :=
  (S.taken i).visit p i

/-- The runs that follow as long as nothing has stopped them. -/
inductive Leads (p : Problem σ) (S : Run σ) : Run σ → Prop
  | refl : Leads p S S
  | pick {T : Run σ} {i : Nat} :
      Leads p S T → T.stopped = none → i ∈ T.pending → Leads p S (T.pick p i)

theorem Leads.trans {S T U : Run σ} (hST : Leads p S T) (hTU : Leads p T U) :
    Leads p S U := by
  induction hTU with
  | refl => exact hST
  | pick _ hstopped hi ih => exact .pick ih hstopped hi

/-- What holds at first and is kept whichever instruction is taken, holds all along. -/
theorem Leads.invariant {P : Run σ → Prop} {S T : Run σ} (h : Leads p S T) (hS : P S)
    (hpick : ∀ T i, Leads p S T → P T → T.stopped = none → i ∈ T.pending → P (T.pick p i)) :
    P T := by
  induction h with
  | refl => exact hS
  | pick hT hstopped hi ih => exact hpick _ _ hT ih hstopped hi

theorem Leads.world {I : σ → Prop} (hcfg : p.config.Repeatable I) {S T : Run σ}
    (h : Leads p S T) (hS : I S.world) : I T.world :=
  h.invariant (P := fun T : Run σ => I T.world) hS
    fun T i _ hT _ _ => visit_world (S := T.taken i) hcfg hT i

theorem isRunning_iff {S : Run σ} : S.isRunning = true ↔ S.stopped = none ∧ S.pending ≠ [] := by
  simp [isRunning]

theorem step_eq_pick {S : Run σ} (h : S.isRunning = true) :
    ∃ i, S.pending.head? = some i ∧ S.step p = S.pick p i := by
  obtain ⟨_, hpending⟩ := isRunning_iff.1 h
  cases hlist : S.pending with
  | nil => exact absurd hlist hpending
  | cons i rest => exact ⟨i, rfl, by simp [step, pick, taken, hlist]⟩

private theorem step_leads {S : Run σ} (h : S.isRunning = true) : Leads p S (S.step p) := by
  obtain ⟨i, hi, hstep⟩ := step_eq_pick (p := p) h
  rw [hstep]
  exact .pick .refl (isRunning_iff.1 h).1 (List.mem_of_mem_head? hi)

/-- The runs that follow in the order of a run itself. -/
inductive Passes (p : Problem σ) (S : Run σ) : Run σ → Prop
  | refl : Passes p S S
  | step {T : Run σ} : Passes p S T → T.isRunning = true → Passes p S (T.step p)

theorem Passes.trans {S T U : Run σ} (hST : Passes p S T) (hTU : Passes p T U) :
    Passes p S U := by
  induction hTU with
  | refl => exact hST
  | step _ hrunning ih => exact .step ih hrunning

theorem Passes.leads {S T : Run σ} (h : Passes p S T) : Leads p S T := by
  induction h with
  | refl => exact .refl
  | step _ hrunning ih => exact ih.trans (step_leads hrunning)

theorem solve_passes (p : Problem σ) (S : Run σ) : Passes p S (S.solve p) := by
  induction S using Run.solve.induct p with
  | case1 S hrunning ih =>
      rw [solve, dif_pos hrunning]
      exact (Passes.refl.step hrunning).trans ih
  | case2 S hended =>
      rw [solve, dif_neg hended]
      exact .refl

theorem solve_leads (p : Problem σ) (S : Run σ) : Leads p S (S.solve p) :=
  (solve_passes p S).leads

theorem solve_ended (p : Problem σ) (S : Run σ) : (S.solve p).isRunning = false := by
  induction S using Run.solve.induct p with
  | case1 S hrunning ih =>
      rw [solve, dif_pos hrunning]
      exact ih
  | case2 S hended =>
      rw [solve, dif_neg hended]
      simpa using hended

end FrameFlow.Run
