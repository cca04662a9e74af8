import FrameFlow.Proofs.Mirror
import FrameFlow.Tolerance

/-!
# Stack limits

A stack limit is looked at when a value is pushed, and nowhere else.  Under a
looser limit a run goes the same way, frame by frame and question by question, up
to the push that overflows under the tighter one.  So a limit only decides whether
an analysis overflows, and not what it finds.
-/

namespace FrameFlow

variable {σ : Type} {tight loose : Option Nat}

def LimitLE (tight loose : Option Nat) : Prop :=
  ∀ n, loose = some n → ∃ k, tight = some k ∧ k ≤ n

private theorem LimitLE.none (tight : Option Nat) : LimitLE tight none := by
  rintro n ⟨⟩

private theorem LimitLE.some {k n : Nat} (h : k ≤ n) : LimitLE (some k) (some n) := by
  rintro _ ⟨⟩
  exact ⟨k, rfl, h⟩

/-! ## Frames -/

def FrameError.IsOverflow (e : FrameError) : Prop :=
  ∃ limit, e = .stackOverflow limit

namespace Frame

variable (limit : Option Nat) (F G : Frame)

private theorem writeLocal_withLimit (slot : Nat) (v : Value) :
    (F.withLimit limit).writeLocal slot v = (F.writeLocal slot v).map (withLimit limit) := by
  unfold writeLocal
  by_cases hfits : slot + v.width.slots ≤ F.locals.length <;> simp [hfits, Except.map, withLimit]

private theorem writeLocals_withLimit (values : List (Nat × Value)) :
    (F.withLimit limit).writeLocals values = (F.writeLocals values).map (withLimit limit) := by
  induction values generalizing F with
  | nil => rfl
  | cons value values ih =>
      simp only [writeLocals, writeLocal_withLimit]
      cases F.writeLocal value.1 value.2 with
      | error e => rfl
      | ok G => exact ih G

private theorem popWidth_withLimit (w : Width) :
    (F.withLimit limit).popWidth w =
      (F.popWidth w).map fun x => (x.1, x.2.withLimit limit) := by
  simp only [popWidth, takeWidth, withLimit_stack]
  cases F.stack with
  | nil => rfl
  | cons v rest => by_cases hw : v.width = w <;> simp [hw, Except.map, withLimit]

private theorem popWidths_withLimit (ws : List Width) :
    (F.withLimit limit).popWidths ws =
      (F.popWidths ws).map fun x => (x.1, x.2.withLimit limit) := by
  induction ws with
  | nil => rfl
  | cons w ws ih =>
      rw [popWidths_cons, popWidths_cons, ih]
      cases F.popWidths ws with
      | error e => rfl
      | ok x =>
          change (x.2.withLimit limit).popWidth w >>= _ = Except.map _ (x.2.popWidth w >>= _)
          rw [popWidth_withLimit]
          cases x.2.popWidth w <;> rfl

variable {F G}

def Loosened (tight loose : Option Nat) (F G : Frame) : Prop :=
  F.limit = tight ∧ G = F.withLimit loose

private theorem push_loosened (h : LimitLE tight loose) (hFG : Loosened tight loose F G)
    (v : Value) :
    Concurs FrameError.IsOverflow (Loosened tight loose) (F.push v) (G.push v) := by
  obtain ⟨hlimit, rfl⟩ := hFG
  by_cases hfits : ∀ limit, F.limit = some limit → F.stackSlots + v.width.slots ≤ limit
  · have hloose : ∀ limit, loose = some limit → F.stackSlots + v.width.slots ≤ limit := by
      intro n hn
      obtain ⟨k, hk, hkn⟩ := h n hn
      exact Nat.le_trans (hfits k (hlimit.trans hk)) hkn
    rw [push_ok_iff.2 ⟨hfits, rfl⟩, push_ok_iff.2 ⟨hloose, rfl⟩]
    exact .ok ⟨hlimit, rfl⟩
  · obtain ⟨limit, hsome, hfull⟩ : ∃ limit, F.limit = some limit ∧
        ¬F.stackSlots + v.width.slots ≤ limit := by
      simpa using hfits
    have herror : F.push v = .error (.stackOverflow limit) := by
      simp [push, hsome, hfull]
    rw [herror]
    exact .excused _ ⟨limit, rfl⟩

/-- Nothing but a push can tell the two frames apart. -/
theorem loosened_parallel (h : LimitLE tight loose) :
    Parallel FrameError.IsOverflow Eq (Loosened tight loose) where
  width := by
    rintro a _ rfl
    rfl
  push := by
    rintro F G a _ hFG rfl
    exact push_loosened h hFG a
  pop := by
    rintro F _ ⟨hlimit, rfl⟩
    simp only [pop, withLimit_stack]
    cases F.stack with
    | nil => exact .error _
    | cons v rest => exact .ok ⟨rfl, hlimit, rfl⟩
  read := by
    rintro F _ ⟨_, rfl⟩ k
    simp only [readLocal, withLimit_locals]
    split
    · exact .error _
    · exact .error _
    · exact .ok rfl
  write := by
    rintro F _ a _ ⟨hlimit, rfl⟩ rfl k
    rw [writeLocal_withLimit]
    cases hwrite : F.writeLocal k a with
    | error e => exact .error e
    | ok H =>
        obtain ⟨_, rfl⟩ := writeLocal_ok_iff.1 hwrite
        exact .ok ⟨hlimit, rfl⟩
  unresolved _ := rfl
  const _ := rfl
  ref _ := rfl
  fold₁ := by
    rintro f w a _ _ rfl
    rfl
  fold₂ := by
    rintro f w a _ a' _ _ rfl rfl
    rfl

private theorem effect_loosened (h : LimitLE tight loose) (hFG : Loosened tight loose F G)
    {τ : Type} (insn : Insn τ) :
    Concurs FrameError.IsOverflow (Loosened tight loose) (insn.effect F) (insn.effect G) := by
  refine (loosened_parallel h).effect_of_test ?_ hFG insn
  rintro a _ className rfl
  rfl

end Frame

namespace Config

variable {F G : Frame}

private theorem transfer_loosened (cfg : Config σ) (h : LimitLE tight loose)
    (hFG : F.Loosened tight loose G) (position : Nat) (insn : Insn Nat) (world : σ) :
    Concurs (Fault.Excused FrameError.IsOverflow) (Frame.Loosened tight loose)
      (cfg.transfer position insn F world).1 (cfg.transfer position insn G world).1 := by
  refine (Frame.loosened_parallel h).transfer (fun _ => rfl) (fun m args args' hargs => ?_) hFG
    (Frame.effect_loosened h hFG insn)
  obtain rfl := List.forall₂_eq_eq_eq ▸ hargs
  cases (cfg.staticCall position m args world).1 with
  | error f => exact .error f
  | ok result => exact .ok (by cases result <;> simp)

private theorem transfer_world_withLimit (cfg : Config σ) (limit : Option Nat) (F : Frame)
    (position : Nat) (insn : Insn Nat) (world : σ) :
    (cfg.transfer position insn (F.withLimit limit) world).2 =
      (cfg.transfer position insn F world).2 := by
  rcases asks_cases insn with ⟨f, rfl⟩ | ⟨m, rfl⟩ | ⟨hfield, hcall⟩
  · rfl
  · have hpop := F.popWidths_withLimit limit m.paramWidths
    cases h : F.popWidths m.paramWidths with
    | error e =>
        rw [h] at hpop
        simp [transfer, h, hpop, Except.map]
    | ok x =>
        rw [h] at hpop
        rw [transfer_invokeStatic_world cfg world position h,
          transfer_invokeStatic_world cfg world position hpop]
  · rw [transfer_eq_effect cfg world position F hfield hcall,
      transfer_eq_effect cfg world position _ hfield hcall]

end Config

/-! ## Runs -/

def Method.withLimit (limit : Option Nat) (m : Method) : Method :=
  { m with maxStack := limit }

def relimit (limit : Option Nat) (frames : Array (Option Frame)) : Array (Option Frame) :=
  frames.map (Option.map (Frame.withLimit limit))

def Problem.withLimit (limit : Option Nat) (p : Problem σ) : Problem σ :=
  { p with method := p.method.withLimit limit }

/-- The policy decides alike under all stack limits, and in all worlds of `I`. -/
structure Policy.Blind (I : σ → Prop) (policy : Policy σ) : Prop where
  limits : ∀ limit m frames, policy (m.withLimit limit) (relimit limit frames) = policy m frames
  worlds : ∀ m frames, Repeats I (policy m frames)

namespace Run

variable {p : Problem σ}

def withLimit (limit : Option Nat) (S : Run σ) : Run σ :=
  { S with frames := relimit limit S.frames }

def Overflowed (S : Run σ) : Prop :=
  ∃ position limit, S.stopped = some (.frame position (.stackOverflow limit))

private theorem Overflowed.stopped {S : Run σ} (h : S.Overflowed) : S.stopped.isSome = true := by
  obtain ⟨position, limit, hstopped⟩ := h
  simp [hstopped]

section

variable (limit : Option Nat) (S : Run σ)

@[simp] theorem withLimit_stopped : (S.withLimit limit).stopped = S.stopped := rfl

@[simp] theorem withLimit_frames (i : Nat) :
    (S.withLimit limit).frames[i]? = S.frames[i]?.map (Option.map (Frame.withLimit limit)) :=
  map_frames (w := id) S i

private theorem offer_withLimit (target : Nat) (F : Frame) :
    (S.withLimit limit).offer (p.withLimit limit) target (F.withLimit limit) =
      (S.offer p target F).withLimit limit :=
  offer_map (p := p) (q := p.withLimit limit) (w := id) rfl (Frame.merge_withLimit limit limit) S
    target F

end

/-- The first run has overflowed, or the second one is the same under a looser limit. -/
def Filtered (loose : Option Nat) (S T : Run σ) : Prop :=
  S.Overflowed ∨ T = S.withLimit loose

variable {S T : Run σ} {F : Frame}

private theorem Filtered.finish {x y : Except FrameError Frame}
    (hxy : Concurs FrameError.IsOverflow (Frame.Loosened tight loose) x y) (S : Run σ)
    (position : Nat) :
    Filtered loose (S.finish p position x)
      ((S.withLimit loose).finish (p.withLimit loose) position y) := by
  cases hxy with
  | ok hFG =>
      obtain ⟨_, rfl⟩ := hFG
      exact .inr (offerAll_map (p := p) (q := p.withLimit loose) (w := id) rfl
        (Frame.merge_withLimit loose loose) S _ _)
  | error e => exact .inr rfl
  | excused y he =>
      obtain ⟨limit, rfl⟩ := he
      exact .inl ⟨position, limit, rfl⟩

variable (hloose : LimitLE p.method.maxStack loose)

include hloose

private theorem Filtered.offerHandler (h : Filtered loose S T) (hF : F.limit = p.method.maxStack)
    (position : Nat) (e : Edge) :
    Filtered loose (Run.offerHandler p position F S e)
      (Run.offerHandler (p.withLimit loose) position (F.withLimit loose) T e) := by
  rcases h with hover | rfl
  · left
    simpa only [Run.offerHandler, hover.stopped, if_true] using hover
  · by_cases hstopped : S.stopped.isSome
    · simp only [Run.offerHandler, withLimit_stopped, hstopped, if_true]
      exact .inr rfl
    · simp only [Run.offerHandler, withLimit_stopped, hstopped, Bool.false_eq_true, if_false]
      cases e.kind with
      | thrown catchClass =>
          have hthrown : Concurs FrameError.IsOverflow (Frame.Loosened p.method.maxStack loose)
              (handlerFrame F catchClass) (handlerFrame (F.withLimit loose) catchClass) :=
            Frame.push_loosened (F := F.clearStack) hloose ⟨hF, rfl⟩ _
          simp only
          generalize handlerFrame F catchClass = x at hthrown ⊢
          generalize handlerFrame (F.withLimit loose) catchClass = y at hthrown ⊢
          cases hthrown with
          | ok hH =>
              obtain ⟨_, rfl⟩ := hH
              exact .inr (offer_withLimit loose S _ _)
          | error e => exact .inr rfl
          | excused y he =>
              obtain ⟨limit, rfl⟩ := he
              exact .inl ⟨position, limit, rfl⟩
      | _ => exact .inr rfl

private theorem Filtered.offerHandlers (S : Run σ) (hF : F.limit = p.method.maxStack)
    (position : Nat) :
    Filtered loose (S.offerHandlers p position F)
      ((S.withLimit loose).offerHandlers (p.withLimit loose) position (F.withLimit loose)) := by
  have hedges (edges : List Edge) (S T : Run σ) (h : Filtered loose S T) :
      Filtered loose (edges.foldl (Run.offerHandler p position F) S)
        (edges.foldl (Run.offerHandler (p.withLimit loose) position (F.withLimit loose)) T) := by
    induction edges generalizing S T with
    | nil => exact h
    | cons e edges ih => exact ih _ _ (h.offerHandler hloose hF position e)
  exact hedges _ S _ (.inr rfl)

variable (hblind : ∀ policy, p.config.policy = some policy → ∀ limit m frames,
  policy (m.withLimit limit) (relimit limit frames) = policy m frames)

include hblind

omit hloose in
private theorem tolerates_withLimit (limit : Option Nat) (S : Run σ) :
    (S.withLimit limit).tolerates (p.withLimit limit) = S.tolerates p := by
  have hsame : (p.withLimit limit).config = p.config := rfl
  simp only [tolerates, hsame]
  split
  · rfl
  · rename_i policy hpolicy
    exact congrFun (hblind policy hpolicy limit p.method S.frames) S.world

private theorem Filtered.fail (S : Run σ) (hF : F.limit = p.method.maxStack) (position : Nat)
    (insn : Insn Nat) (f : Failure) :
    Filtered loose (S.fail p position insn F f)
      ((S.withLimit loose).fail (p.withLimit loose) position insn (F.withLimit loose) f) := by
  have heffect := Frame.effect_loosened hloose ⟨hF, rfl⟩ insn
  unfold Run.fail
  rw [tolerates_withLimit hblind]
  obtain ⟨verdict, world⟩ := S.tolerates p
  cases verdict with
  | false => exact .inr rfl
  | true =>
      have hrecord : (withLimit loose { S with world := world }).record f =
          (Run.record { S with world := world } f).withLimit loose :=
        record_map _ id _ f
      change Filtered loose _
        (((withLimit loose { S with world := world }).record f).finish (p.withLimit loose)
          position (insn.effect (F.withLimit loose)))
      rw [hrecord]
      exact Filtered.finish heffect _ position

private theorem Filtered.carryOut (h : Filtered loose S T) (hF : F.limit = p.method.maxStack)
    (position : Nat) (insn : Insn Nat) :
    Filtered loose (S.carryOut p position insn F)
      (T.carryOut (p.withLimit loose) position insn (F.withLimit loose)) := by
  rcases h with hover | rfl
  · left
    simpa only [Run.carryOut, hover.stopped, if_true] using hover
  · by_cases hstopped : S.stopped.isSome
    · simp only [Run.carryOut, withLimit_stopped, hstopped, if_true]
      exact .inr rfl
    · simp only [Run.carryOut, withLimit_stopped, hstopped, Bool.false_eq_true, if_false]
      have hresult : Concurs (Fault.Excused FrameError.IsOverflow)
          (Frame.Loosened p.method.maxStack loose) (p.config.transfer position insn F S.world).1
          ((p.withLimit loose).config.transfer position insn (F.withLimit loose)
            (S.withLimit loose).world).1 :=
        p.config.transfer_loosened hloose ⟨hF, rfl⟩ position insn S.world
      have hworld : ((p.withLimit loose).config.transfer position insn (F.withLimit loose)
          (S.withLimit loose).world).2 = (p.config.transfer position insn F S.world).2 :=
        p.config.transfer_world_withLimit loose F position insn S.world
      generalize p.config.transfer position insn F S.world = x at hresult hworld ⊢
      generalize (p.withLimit loose).config.transfer position insn (F.withLimit loose)
        (S.withLimit loose).world = y at hresult hworld ⊢
      obtain ⟨result, world⟩ := x
      obtain ⟨result', world'⟩ := y
      simp only at hresult hworld
      subst hworld
      cases hresult with
      | ok hG => exact Filtered.finish (.ok hG) { S with world := world' } position
      | error fault =>
          cases fault with
          | frame cause => exact .inr rfl
          | simulation f =>
              exact Filtered.fail hloose hblind { S with world := world' } hF position insn f
      | @excused fault _ he =>
          cases fault with
          | frame cause =>
              obtain ⟨limit, rfl⟩ := he
              exact .inl ⟨position, limit, rfl⟩
          | simulation f => exact he.elim

private theorem Filtered.visit (S : Run σ) (hS : AllFrames (Frame.Of p.method) S) (position : Nat) :
    Filtered loose (S.visit p position)
      ((S.withLimit loose).visit (p.withLimit loose) position) := by
  have hcode : (p.withLimit loose).method.code = p.method.code := rfl
  simp only [Run.visit, withLimit_frames, hcode]
  cases hframe : S.frames[position]? with
  | none => exact .inr rfl
  | some slot =>
      cases slot with
      | none => exact .inr rfl
      | some F =>
          cases p.method.code[position]? with
          | none => exact .inr rfl
          | some insn =>
              have hF := (hS position F hframe).limit
              exact (Filtered.offerHandlers hloose S hF position).carryOut hloose hblind hF
                position insn

private theorem Filtered.step (S : Run σ) (hS : AllFrames (Frame.Of p.method) S) :
    Filtered loose (S.step p) ((S.withLimit loose).step (p.withLimit loose)) := by
  have hpending : (S.withLimit loose).pending = S.pending := rfl
  simp only [Run.step, hpending]
  cases S.pending with
  | nil => exact .inr rfl
  | cons i rest =>
      exact Filtered.visit hloose hblind { S with pending := rest, steps := S.steps + 1 } hS i

private theorem Filtered.solve (h : Filtered loose S T) (hS : AllFrames (Frame.Of p.method) S) :
    Filtered loose (S.solve p) (T.solve (p.withLimit loose)) := by
  induction S using Run.solve.induct p generalizing T with
  | case1 S hrunning ih =>
      rcases h with ⟨position, limit, hover⟩ | rfl
      · rw [(isRunning_iff.1 hrunning).1] at hover
        cases hover
      · have hrunning' : (S.withLimit loose).isRunning = true := hrunning
        have hframes : AllFrames (Frame.Of p.method) (S.step p) := by
          obtain ⟨i, _, hstep⟩ := step_eq_pick (p := p) hrunning
          rw [hstep]
          exact AllFrames.pick (Frame.lasting_of _) hS i
        rw [Run.solve.eq_def p S, dif_pos hrunning, Run.solve.eq_def _ (S.withLimit loose),
          dif_pos hrunning']
        exact ih (Filtered.step hloose hblind S hS) hframes
  | case2 S hended =>
      rw [Run.solve.eq_def p S, dif_neg hended]
      rcases h with hover | rfl
      · exact .inl hover
      · have hended' : ¬(S.withLimit loose).isRunning = true := hended
        rw [Run.solve.eq_def _ (S.withLimit loose), dif_neg hended']
        exact .inr rfl

end Run

/-! ## Analyses -/

def Analysis.withLimit (limit : Option Nat) (a : Analysis) : Analysis :=
  { a with frames := relimit limit a.frames }

namespace Method

variable (limit : Option Nat) (m : Method)

private theorem entryFrame_withLimit :
    (m.withLimit limit).entryFrame = m.entryFrame.map (Frame.withLimit limit) :=
  (Frame.empty m.maxLocals m.maxStack).writeLocals_withLimit limit m.arguments

private theorem returned_withLimit (code : List (Insn Nat)) (frames : List (Option Frame)) :
    returned code (frames.map (Option.map (Frame.withLimit limit))) = returned code frames := by
  induction code generalizing frames with
  | nil => simp [returned]
  | cons insn code ih =>
      cases frames with
      | nil => simp [returned]
      | cons slot frames =>
          rw [List.map_cons, returned_cons, returned_cons insn code slot, ih]
          congr 1
          cases insn with
          | ret kind => cases kind <;> cases slot <;> simp [returned, Frame.top?]
          | _ => simp [returned]

end Method

namespace Config

def Overflows (cfg : Config σ) (m : Method) (start : σ) : Prop :=
  ∃ position limit, (cfg.analyze m start).1 = .error (.frame position (.stackOverflow limit))

private theorem outcome_withLimit (p : Problem σ) (S : Run σ) (limit : Option Nat) :
    outcome (p.withLimit limit) (S.withLimit limit) =
      (outcome p S).map (Analysis.withLimit limit) := by
  have hreturned : Method.returned p.method.code.toList (S.withLimit limit).frames.toList =
      Method.returned p.method.code.toList S.frames.toList := by
    simpa [Run.withLimit, relimit] using
      Method.returned_withLimit limit p.method.code.toList S.frames.toList
  have hcode : (p.withLimit limit).method.code = p.method.code := rfl
  simp only [outcome, Run.withLimit_stopped, hcode, hreturned]
  cases S.stopped with
  | some e => rfl
  | none =>
      cases Value.joinAll (Method.returned p.method.code.toList S.frames.toList) <;> rfl

private theorem begin_withLimit (p : Problem σ) (seed : Frame) (start : σ) (limit : Option Nat) :
    begin (p.withLimit limit) (seed.withLimit limit) start =
      (begin p seed start).withLimit limit := by
  have hblank : Run.blank (p.withLimit limit) start =
      (Run.blank p start).map (Frame.withLimit limit) id := by
    simp [Run.blank, Run.map, Problem.withLimit, Method.withLimit]
  rw [Run.begin_eq, Run.begin_eq, hblank]
  exact Run.install_map (p := p) (q := p.withLimit limit) rfl _ _ _

variable {cfg : Config σ}

/-- The two analyses ask the same questions, so this holds whatever the answers depend on. -/
theorem analyze_loosened {m : Method} (hloose : LimitLE m.maxStack loose)
    (hblind : ∀ policy, cfg.policy = some policy → ∀ limit m frames,
      policy (m.withLimit limit) (relimit limit frames) = policy m frames) (start : σ) :
    cfg.Overflows m start ∨
      (cfg.analyze m start).1.map (Analysis.withLimit loose) =
        (cfg.analyze (m.withLimit loose) start).1 := by
  have hlocals' : (m.withLimit loose).checkLocals = m.checkLocals := rfl
  have hgraph' : (m.withLimit loose).graph = m.graph := rfl
  cases hlocals : m.checkLocals with
  | error e =>
      right
      simp [analyze, hlocals', hlocals, Except.map]
  | ok checked =>
      cases hgraph : m.graph with
      | error e =>
          right
          simp [analyze, hlocals', hlocals, hgraph', hgraph, Except.map]
      | ok g =>
          obtain ⟨seed, hseed⟩ := m.entryFrame_ok hlocals
          have hseed' : (m.withLimit loose).entryFrame = .ok (seed.withLimit loose) := by
            rw [Method.entryFrame_withLimit, hseed]
            rfl
          have hanalysis := analyze_eq cfg hlocals hgraph hseed start
          have hbegin := begin_withLimit (cfg.problem m g) seed start loose
          have hframes : Run.AllFrames (Frame.Of m) (begin (cfg.problem m g) seed start) :=
            Run.begin_allFrames (Method.entryFrame_of hseed) start
          rcases Run.Filtered.solve (p := cfg.problem m g) hloose hblind (.inr hbegin) hframes
            with ⟨position, limit, hstopped⟩ | hsolved
          · left
            exact ⟨position, limit, hanalysis.trans (outcome_stopped hstopped)⟩
          · right
            rw [hanalysis, analyze_eq cfg (hlocals'.trans hlocals) (hgraph'.trans hgraph) hseed',
              ← outcome_withLimit]
            exact congrArg (outcome _) hsolved.symm

/--
A stack limit only filters: an analysis under it overflows, or ends as the one
without a limit does.  What does not overflow under one limit does not under any
larger one.
-/
theorem analyze_maxStack {I : σ → Prop} (hcfg : cfg.Repeatable I)
    (hpolicy : ∀ policy, cfg.policy = some policy → policy.Blind I) {start start' : σ}
    (hstart : I start) (hstart' : I start') (m : Method) (k : Nat) :
    (cfg.Overflows (m.withLimit (some k)) start ∨
      (cfg.analyze (m.withLimit (some k)) start).1.map (Analysis.withLimit none) =
        (cfg.analyze (m.withLimit none) start').1) ∧
    (¬cfg.Overflows (m.withLimit (some k)) start →
      ∀ n, k ≤ n → ¬cfg.Overflows (m.withLimit (some n)) start') := by
  have hblind := fun policy hsome => (hpolicy policy hsome).limits
  have hmirrors := hcfg.mirrors fun policy hsome => (hpolicy policy hsome).worlds
  have hsame (m : Method) : (cfg.analyze m start).1 = (cfg.analyze m start').1 :=
    (hmirrors.analyze m ⟨hstart, hstart'⟩).1
  constructor
  · rw [← hsame]
    exact analyze_loosened (m := m.withLimit (some k)) (.none _) hblind start
  · rintro hfits n hkn ⟨position, limit, hover⟩
    rw [← hsame] at hover
    rcases analyze_loosened (m := m.withLimit (some k)) (.some hkn) hblind start with
      hover' | heq
    · exact hfits hover'
    · rw [show (m.withLimit (some k)).withLimit (some n) = m.withLimit (some n) from rfl, hover]
        at heq
      cases hanalysis : (cfg.analyze (m.withLimit (some k)) start).1 with
      | ok a =>
          rw [hanalysis] at heq
          cases heq
      | error e =>
          rw [hanalysis] at heq
          cases heq
          exact hfits ⟨position, limit, hanalysis⟩

end Config

private theorem values_relimit (limit : Option Nat) (frames : Array (Option Frame)) :
    ((relimit limit frames).toList.filterMap fun frame => frame).flatMap Frame.values =
      (frames.toList.filterMap fun frame => frame).flatMap Frame.values := by
  rw [relimit, Array.toList_map]
  induction frames.toList with
  | nil => rfl
  | cons slot slots ih =>
      cases slot with
      | none => simpa using ih
      | some F => simpa [Frame.values] using ih

private theorem Tolerance.policy_blind (t : Tolerance) (I : σ → Prop) :
    Policy.Blind I (t.policy : Policy σ) where
  worlds _ _ := .pure _
  limits limit m frames := by
    have hallows : t.allows (m.withLimit limit) (relimit limit frames) = t.allows m frames := by
      cases t with
      | always | never | generated => rfl
      | share percent => simp only [allows, exceedsShare, values_relimit]
      | reached position =>
          simp only [allows, relimit, Array.getElem?_map]
          cases frames[position]? with
          | none => rfl
          | some slot => cases slot <;> rfl
    funext world
    simp only [policy, hallows]

def halfway : Config Nat where
  mode := .simulated
  host := some fun _ _ count => (.error ⟨.unsupported, "size"⟩, count + 1)
  policy := some (Tolerance.share 50).policy

def stacked : Method where
  owner := "Task"
  name := "stacked"
  type := ⟨[], some (.base .long)⟩
  access := .publicStatic
  maxLocals := 0
  maxStack := none
  code := #[.const (.int 7), .invoke .static ⟨"Task", "size", ⟨[], some (.base .long)⟩⟩,
    .stack .dup2, .ret (some .long)]
  handlers := []

theorem stacked_maxStack :
    halfway.Overflows (stacked.withLimit (some 4)) 0 ∧
      (halfway.analyze (stacked.withLimit (some 5)) 0).1.map (Analysis.withLimit none) =
        (halfway.analyze stacked 9).1 ∧
      ∀ n, 5 ≤ n → ¬halfway.Overflows (stacked.withLimit (some n)) 9 := by
  have hhalfway : halfway.Repeatable fun _ => True := by
    constructor
    · rintro _ ⟨⟩
    · rintro _ ⟨⟩
    · rintro _ ⟨⟩ _ _
      exact ⟨_, fun _ _ => ⟨rfl, trivial⟩⟩
    · exact fun _ _ _ _ _ _ => trivial
  have hpolicy : ∀ policy, halfway.policy = some policy → policy.Blind fun _ => True := by
    rintro _ ⟨⟩
    exact Tolerance.policy_blind _ _
  have hfits : ¬halfway.Overflows (stacked.withLimit (some 5)) 0 := by
    rintro ⟨position, limit, hover⟩
    have hok : (halfway.analyze (stacked.withLimit (some 5)) 0).1.isOk = true := by cbv
    rw [hover] at hok
    cases hok
  obtain ⟨houtcome, hlarger⟩ :=
    @Config.analyze_maxStack _ _ _ hhalfway hpolicy 0 9 trivial trivial stacked 5
  exact ⟨⟨2, 4, by cbv⟩, houtcome.resolve_left hfits, hlarger hfits⟩

end FrameFlow
