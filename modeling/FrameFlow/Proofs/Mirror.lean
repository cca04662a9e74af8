import FrameFlow.Proofs.Outcomes

/-!
# Runs that ask alike

A run looks at its world only through the answers it gets.  Where two
configurations give the same answers in related worlds, and the worlds stay
related, their runs have the same frames, the same pending instructions and the
same failures all along, and their analyses end alike.  Each moment of the one
run is a moment of the other.
-/

namespace FrameFlow

variable {σ τ α β : Type}

def Agrees (R : σ → τ → Prop) (x : α × σ) (y : α × τ) : Prop :=
  x.1 = y.1 ∧ R x.2 y.2

/-- In related worlds the two questions are answered alike. -/
def Echoes (R : σ → τ → Prop) (ask : σ → α × σ) (ask' : τ → α × τ) : Prop :=
  ∀ ⦃world world'⦄, R world world' → Agrees R (ask world) (ask' world')

namespace Echoes

variable {R : σ → τ → Prop}

theorem pure (a : α) : Echoes R (fun world => (a, world)) fun world => (a, world) :=
  fun _ _ h => ⟨rfl, h⟩

theorem bind {ask : σ → α × σ} {ask' : τ → α × τ} {next : α → σ → β × σ}
    {next' : α → τ → β × τ} (hask : Echoes R ask ask') (hnext : ∀ a, Echoes R (next a) (next' a)) :
    Echoes R (fun world => next (ask world).1 (ask world).2)
      fun world => next' (ask' world).1 (ask' world).2 := by
  intro world world' h
  obtain ⟨hanswer, hworld⟩ := hask h
  simp only [hanswer]
  exact hnext _ hworld

end Echoes

/-! ## Configurations -/

theorem rel_map {β γ : Type} {R : β → γ → Prop} {f : α → β} {g : α → γ} {x : Option α}
    (h : ∀ a, x = some a → R (f a) (g a)) : Option.Rel R (x.map f) (x.map g) := by
  cases x with
  | none => exact .none
  | some a => exact .some (h a rfl)

theorem rel_map_left {β : Type} {R : β → α → Prop} {f : α → β} {x : Option α}
    (h : ∀ a, x = some a → R (f a) a) : Option.Rel R (x.map f) x := by
  simpa using rel_map (g := id) h

namespace Config

structure Mirrors (R : σ → τ → Prop) (c : Config σ) (d : Config τ) : Prop where
  mode : c.mode = d.mode
  fields : Option.Rel (fun s t => ∀ f, Echoes R (s f) (t f)) c.fields d.fields
  calls : Option.Rel (fun s t => ∀ m args, Echoes R (s m args) (t m args)) c.calls d.calls
  host : Option.Rel (fun s t => ∀ m args, Echoes R (s m args) (t m args)) c.host d.host
  policy : Option.Rel (fun s t => ∀ m frames, Echoes R (s m frames) (t m frames))
    c.policy d.policy

namespace Mirrors

variable {R : σ → τ → Prop} {c : Config σ} {d : Config τ}

private theorem staticField (h : c.Mirrors R d) (f : FieldRef) :
    Echoes R (c.staticField f) (d.staticField f) := by
  have hfields := h.fields
  unfold Config.staticField
  generalize c.fields = source at hfields ⊢
  generalize d.fields = source' at hfields ⊢
  cases hfields with
  | none => exact .pure _
  | some hsource => exact (hsource f).bind fun v => .pure (v.shapedTo f.width)

private theorem simulateCall (h : c.Mirrors R d) (position : Nat) (m : MethodRef)
    (args : List Value) (answer : Option Value) :
    Echoes R (c.simulateCall position m args answer) (d.simulateCall position m args answer) := by
  have hhost := h.host
  unfold Config.simulateCall
  rw [h.mode]
  generalize c.host = host at hhost ⊢
  generalize d.host = host' at hhost ⊢
  cases hhost with
  | none => cases d.mode <;> exact .pure _
  | some hhost =>
      cases d.mode with
      | constants => exact .pure _
      | simulated =>
          cases Value.hostArguments? args with
          | none => exact .pure _
          | some hostArgs =>
              exact (hhost m hostArgs).bind fun answer => .pure (answer.accept position m)

private theorem staticCall (h : c.Mirrors R d) (position : Nat) (m : MethodRef)
    (args : List Value) :
    Echoes R (c.staticCall position m args) (d.staticCall position m args) := by
  have hcalls := h.calls
  unfold Config.staticCall
  generalize c.calls = source at hcalls ⊢
  generalize d.calls = source' at hcalls ⊢
  cases hcalls with
  | none => exact h.simulateCall position m args _
  | some hsource =>
      have hnext (answer : Option Value) :
          Echoes R
            (fun world =>
              if isOpen (m.shapedResult answer) then
                c.simulateCall position m args (m.shapedResult answer) world
              else (.ok (m.shapedResult answer), world))
            fun world =>
              if isOpen (m.shapedResult answer) then
                d.simulateCall position m args (m.shapedResult answer) world
              else (.ok (m.shapedResult answer), world) := by
        split
        · exact h.simulateCall position m args _
        · exact .pure _
      exact (hsource m args).bind hnext

private theorem transfer (h : c.Mirrors R d) (position : Nat) (insn : Insn Nat) (F : Frame) :
    Echoes R (c.transfer position insn F) (d.transfer position insn F) := by
  intro world world' hworld
  unfold Config.transfer
  split
  · rename_i f
    obtain ⟨hvalue, hrelated⟩ := h.staticField f hworld
    exact ⟨by simp only [hvalue], hrelated⟩
  · rename_i m
    cases F.popWidths m.paramWidths with
    | error e => exact ⟨rfl, hworld⟩
    | ok x =>
        have hcall := h.staticCall position m x.1 hworld
        simp only
        generalize c.staticCall position m x.1 world = y at hcall ⊢
        generalize d.staticCall position m x.1 world' = z at hcall ⊢
        obtain ⟨answer, world₁⟩ := y
        obtain ⟨answer', world₂⟩ := z
        obtain ⟨hanswer, hrelated⟩ := hcall
        simp only at hanswer hrelated
        subst hanswer
        cases answer <;> exact ⟨rfl, hrelated⟩
  · exact ⟨rfl, hworld⟩

end Mirrors

/-- Worlds in which every question has one answer cannot be told apart. -/
theorem Repeatable.mirrors {cfg : Config σ} {I : σ → Prop} (h : cfg.Repeatable I)
    (hpolicy : ∀ policy, cfg.policy = some policy → ∀ m frames, Repeats I (policy m frames)) :
    cfg.Mirrors (fun world world' => I world ∧ I world') cfg := by
  have hechoes {α : Type} {ask : σ → α × σ} (hask : Repeats I ask) :
      Echoes (fun world world' => I world ∧ I world') ask ask := fun _ _ hworlds =>
    ⟨hask.answer_eq hworlds.1 hworlds.2, hask.world hworlds.1, hask.world hworlds.2⟩
  constructor
  · rfl
  · simpa using rel_map_left (f := id) fun source hsource f => hechoes (h.fields source hsource f)
  · simpa using rel_map_left (f := id) fun source hsource m args =>
      hechoes (h.calls source hsource m args)
  · simpa using rel_map_left (f := id) fun host hhost m args =>
      hechoes (h.host host hhost m args)
  · simpa using rel_map_left (f := id) fun policy hsome m frames =>
      hechoes (hpolicy policy hsome m frames)

end Config

/-! ## Problems -/

def Problem.withConfig (p : Problem σ) (d : Config τ) : Problem τ :=
  ⟨d, p.method, p.graph, p.order⟩

private theorem Problem.enqueue_eq {p : Problem σ} {q : Problem τ} (h : p.order = q.order) (i : Nat)
    (pending : List Nat) : p.enqueue i pending = q.enqueue i pending := by
  induction pending with
  | nil => rfl
  | cons j rest ih =>
      have hbefore : p.comesBefore i j = q.comesBefore i j := by
        unfold comesBefore rank
        rw [h]
      simp only [enqueue, hbefore, ih]

namespace Run

/-! ## Maps of runs -/

/-- The run with other frames and another world. -/
def map (f : Frame → Frame) (w : σ → τ) (S : Run σ) : Run τ :=
  ⟨S.frames.map (Option.map f), S.pending, S.failures, S.steps, w S.world, S.stopped⟩

section Map

variable {p : Problem σ} {q : Problem τ} {f : Frame → Frame} {w : σ → τ}

theorem map_frames (S : Run σ) (i : Nat) :
    (S.map f w).frames[i]? = S.frames[i]?.map (Option.map f) := by
  simp [map]

theorem record_map (f : Frame → Frame) (w : σ → τ) (S : Run σ) (failure : Failure) :
    (S.map f w).record failure = (S.record failure).map f w := by
  by_cases hknown : S.failures.any fun g => g.position == failure.position
  · simp [record, map, hknown]
  · simp [record, map, hknown]

variable (horder : q.order = p.order)

include horder

theorem install_map (S : Run σ) (target : Nat) (H : Frame) :
    (S.map f w).install q target (f H) = (S.install p target H).map f w := by
  simp [install, map, Problem.enqueue_eq horder]

variable (hmerge : ∀ F G, (f F).merge (f G) = (F.merge G).map fun x => (f x.1, x.2))

include hmerge

theorem offer_map (S : Run σ) (target : Nat) (F : Frame) :
    (S.map f w).offer q target (f F) = (S.offer p target F).map f w := by
  have hstopped : (S.map f w).stopped = S.stopped := rfl
  simp only [offer, hstopped, map_frames, install_map horder]
  cases S.stopped.isSome with
  | true => rfl
  | false =>
      cases S.frames[target]? with
      | none => rfl
      | some slot =>
          cases slot with
          | none => rfl
          | some G =>
              simp only [Option.map_some, hmerge]
              cases G.merge F with
              | error e => rfl
              | ok x =>
                  obtain ⟨H, changed⟩ := x
                  cases changed with
                  | false => rfl
                  | true => exact install_map horder S target H

theorem offerAll_map (S : Run σ) (F : Frame) (edges : List Edge) :
    (S.map f w).offerAll q (f F) edges = (S.offerAll p F edges).map f w := by
  unfold offerAll
  induction edges generalizing S with
  | nil => rfl
  | cons e edges ih => rw [List.foldl_cons, List.foldl_cons, offer_map horder hmerge, ih]

end Map

/-! ## Runs in related worlds -/

variable {p : Problem σ} {d : Config τ}

def inWorld (S : Run σ) (world : τ) : Run τ :=
  ⟨S.frames, S.pending, S.failures, S.steps, world, S.stopped⟩

@[simp] theorem inWorld_frames (S : Run σ) (world : τ) : (S.inWorld world).frames = S.frames :=
  rfl

@[simp] theorem inWorld_stopped (S : Run σ) (world : τ) :
    (S.inWorld world).stopped = S.stopped :=
  rfl

theorem inWorld_eq_map (S : Run σ) (world : τ) : S.inWorld world = S.map id fun _ => world := by
  simp [inWorld, map]

private theorem merge_id (F G : Frame) :
    (id F).merge (id G) = (F.merge G).map fun x => (id x.1, x.2) := by
  simp only [id]
  cases F.merge G <;> rfl

private theorem install_inWorld (S : Run σ) (world : τ) (target : Nat) (H : Frame) :
    (S.inWorld world).install (p.withConfig d) target H =
      (S.install p target H).inWorld world := by
  rw [inWorld_eq_map, inWorld_eq_map]
  exact install_map (p := p) (q := p.withConfig d) rfl S target H

private theorem offer_inWorld (S : Run σ) (world : τ) (target : Nat) (F : Frame) :
    (S.inWorld world).offer (p.withConfig d) target F = (S.offer p target F).inWorld world := by
  rw [inWorld_eq_map, inWorld_eq_map]
  exact offer_map (p := p) (q := p.withConfig d) rfl merge_id S target F

private theorem record_inWorld (S : Run σ) (world : τ) (f : Failure) :
    (S.inWorld world).record f = (S.record f).inWorld world := by
  rw [inWorld_eq_map, inWorld_eq_map]
  exact record_map id _ S f

private theorem offerHandler_inWorld (S : Run σ) (world : τ) (position : Nat) (F : Frame)
    (e : Edge) :
    offerHandler (p.withConfig d) position F (S.inWorld world) e =
      (offerHandler p position F S e).inWorld world := by
  simp only [offerHandler, inWorld_stopped, offer_inWorld (p := p)]
  cases S.stopped.isSome with
  | true => rfl
  | false =>
      cases e.kind with
      | thrown catchClass =>
          simp only
          cases handlerFrame F catchClass <;> rfl
      | _ => rfl

private theorem offerHandlers_inWorld (S : Run σ) (world : τ) (position : Nat) (F : Frame) :
    (S.inWorld world).offerHandlers (p.withConfig d) position F =
      (S.offerHandlers p position F).inWorld world := by
  have hedges (edges : List Edge) (S : Run σ) :
      edges.foldl (offerHandler (p.withConfig d) position F) (S.inWorld world) =
        (edges.foldl (offerHandler p position F) S).inWorld world := by
    induction edges generalizing S with
    | nil => rfl
    | cons e edges ih => rw [List.foldl_cons, List.foldl_cons, offerHandler_inWorld, ih]
  exact hedges _ S

private theorem finish_inWorld (S : Run σ) (world : τ) (position : Nat)
    (result : Except FrameError Frame) :
    (S.inWorld world).finish (p.withConfig d) position result =
      (S.finish p position result).inWorld world := by
  cases result with
  | error cause => rfl
  | ok F =>
      rw [inWorld_eq_map, inWorld_eq_map]
      exact offerAll_map (p := p) (q := p.withConfig d) rfl merge_id S F _

def Mirrors (R : σ → τ → Prop) (S : Run σ) (T : Run τ) : Prop :=
  ∃ world, R S.world world ∧ T = S.inWorld world

variable {R : σ → τ → Prop} {S : Run σ} {T : Run τ}

theorem Mirrors.isRunning (h : Mirrors R S T) : T.isRunning = S.isRunning := by
  obtain ⟨world, _, rfl⟩ := h
  rfl

private theorem Mirrors.finish (h : Mirrors R S T) (position : Nat)
    (result : Except FrameError Frame) :
    Mirrors R (S.finish p position result) (T.finish (p.withConfig d) position result) := by
  obtain ⟨world, hworld, rfl⟩ := h
  exact ⟨world, by simpa using hworld, finish_inWorld S world position result⟩

variable (hd : p.config.Mirrors R d)

include hd

private theorem Mirrors.tolerates (h : Mirrors R S T) :
    Agrees R (S.tolerates p) (T.tolerates (p.withConfig d)) := by
  obtain ⟨world, hworld, rfl⟩ := h
  have hpolicy := hd.policy
  simp only [Run.tolerates, Problem.withConfig]
  generalize p.config.policy = policy at hpolicy ⊢
  generalize d.policy = policy' at hpolicy ⊢
  cases hpolicy with
  | none => exact ⟨rfl, hworld⟩
  | some hask => exact hask p.method S.frames hworld

private theorem Mirrors.fail (h : Mirrors R S T) (position : Nat) (insn : Insn Nat) (F : Frame)
    (f : Failure) :
    Mirrors R (S.fail p position insn F f) (T.fail (p.withConfig d) position insn F f) := by
  have htolerates := h.tolerates hd
  obtain ⟨world, _, rfl⟩ := h
  unfold Run.fail
  generalize S.tolerates p = x at htolerates ⊢
  generalize (S.inWorld world).tolerates (p.withConfig d) = y at htolerates ⊢
  obtain ⟨verdict, world₁⟩ := x
  obtain ⟨verdict', world₂⟩ := y
  obtain ⟨hverdict, hworld⟩ := htolerates
  simp only at hverdict hworld
  subst hverdict
  cases verdict with
  | false => exact ⟨world₂, hworld, rfl⟩
  | true =>
      apply Mirrors.finish
      exact ⟨world₂, by simpa using hworld, record_inWorld { S with world := world₁ } world₂ f⟩

private theorem Mirrors.carryOut (h : Mirrors R S T) (position : Nat) (insn : Insn Nat)
    (F : Frame) :
    Mirrors R (S.carryOut p position insn F) (T.carryOut (p.withConfig d) position insn F) := by
  obtain ⟨world, hworld, rfl⟩ := h
  have htransfer := hd.transfer position insn F hworld
  simp only [Run.carryOut, inWorld_stopped]
  by_cases hstopped : S.stopped.isSome
  · simp only [hstopped, if_true]
    exact ⟨world, hworld, rfl⟩
  · simp only [hstopped, Bool.false_eq_true, if_false]
    change Agrees R _ ((p.withConfig d).config.transfer position insn F (S.inWorld world).world)
      at htransfer
    generalize p.config.transfer position insn F S.world = x at htransfer ⊢
    generalize (p.withConfig d).config.transfer position insn F (S.inWorld world).world = y
      at htransfer ⊢
    obtain ⟨result, world₁⟩ := x
    obtain ⟨result', world₂⟩ := y
    obtain ⟨hresult, hrelated⟩ := htransfer
    simp only at hresult hrelated
    subst hresult
    have hmoved : Mirrors R { S with world := world₁ }
        { S.inWorld world with world := world₂ } := ⟨world₂, hrelated, rfl⟩
    cases result with
    | ok G => exact hmoved.finish position (.ok G)
    | error fault =>
        cases fault with
        | frame cause => exact hmoved.finish position (.error cause)
        | simulation f => exact hmoved.fail hd position insn F f

private theorem Mirrors.visit (h : Mirrors R S T) (position : Nat) :
    Mirrors R (S.visit p position) (T.visit (p.withConfig d) position) := by
  obtain ⟨world, hworld, rfl⟩ := h
  have hsame : (p.withConfig d).method = p.method := rfl
  simp only [Run.visit, inWorld_frames, hsame]
  split
  · apply Mirrors.carryOut hd
    exact ⟨world, by simpa using hworld, offerHandlers_inWorld S world position _⟩
  · exact ⟨world, hworld, rfl⟩

theorem Mirrors.step (h : Mirrors R S T) : Mirrors R (S.step p) (T.step (p.withConfig d)) := by
  obtain ⟨world, hworld, rfl⟩ := h
  have hpending : (S.inWorld world).pending = S.pending := rfl
  simp only [Run.step, hpending]
  cases S.pending with
  | nil => exact ⟨world, hworld, rfl⟩
  | cons i rest =>
      apply Mirrors.visit hd
      exact ⟨world, hworld, rfl⟩

private theorem Mirrors.solve (h : Mirrors R S T) :
    Mirrors R (S.solve p) (T.solve (p.withConfig d)) := by
  induction S using Run.solve.induct p generalizing T with
  | case1 S hrunning ih =>
      have hrunning' : T.isRunning = true := h.isRunning.trans hrunning
      rw [Run.solve.eq_def p S, dif_pos hrunning, Run.solve.eq_def _ T, dif_pos hrunning']
      exact ih (h.step hd)
  | case2 S hended =>
      have hended' : ¬T.isRunning = true := by rwa [h.isRunning]
      rw [Run.solve.eq_def p S, dif_neg hended, Run.solve.eq_def _ T, dif_neg hended']
      exact h

private theorem Mirrors.passes {S' : Run σ} (h : Mirrors R S T) (hS : Passes p S S') :
    ∃ T', Passes (p.withConfig d) T T' ∧ Mirrors R S' T' := by
  induction hS with
  | refl => exact ⟨T, .refl, h⟩
  | step _ hrunning ih =>
      obtain ⟨U, hU, hmirrors⟩ := ih
      exact ⟨_, hU.step (hmirrors.isRunning.trans hrunning), hmirrors.step hd⟩

private theorem Mirrors.passes_of {T' : Run τ} (h : Mirrors R S T)
    (hT : Passes (p.withConfig d) T T') : ∃ S', Passes p S S' ∧ Mirrors R S' T' := by
  induction hT with
  | refl => exact ⟨S, .refl, h⟩
  | step _ hrunning ih =>
      obtain ⟨U, hU, hmirrors⟩ := ih
      exact ⟨_, hU.step (hmirrors.isRunning.symm.trans hrunning), hmirrors.step hd⟩

end Run

/-! ## Analyses -/

namespace Config

variable {R : σ → τ → Prop} {c : Config σ} {d : Config τ}

theorem begin_mirrors (m : Method) (g : FlowGraph) (seed : Frame) {start : σ} {start' : τ}
    (hstart : R start start') :
    Run.Mirrors R (begin (c.problem m g) seed start) (begin (d.problem m g) seed start') :=
  ⟨start', hstart,
    Run.install_inWorld (p := c.problem m g) (Run.blank (c.problem m g) start) start' _ seed⟩

theorem Mirrors.solved (h : c.Mirrors R d) (m : Method) (g : FlowGraph) (seed : Frame)
    {start : σ} {start' : τ} (hstart : R start start') :
    Run.Mirrors R (c.solved m g seed start) (d.solved m g seed start') :=
  (begin_mirrors m g seed hstart).solve (p := c.problem m g) h

/-- The analysis of `m` makes a run, and `S` is one of its states. -/
structure Moment (cfg : Config σ) (m : Method) (start : σ) (g : FlowGraph) (S : Run σ) :
    Prop where
  graph : m.graph = .ok g
  passes : ∃ seed, m.entryFrame = .ok seed ∧
    Run.Passes (cfg.problem m g) (begin (cfg.problem m g) seed start) S

theorem Mirrors.moment (h : c.Mirrors R d) {m : Method} {g : FlowGraph} {start : σ} {start' : τ}
    (hstart : R start start') {S : Run σ} (hS : c.Moment m start g S) :
    ∃ T, d.Moment m start' g T ∧ Run.Mirrors R S T := by
  obtain ⟨seed, hseed, hpasses⟩ := hS.passes
  obtain ⟨T, hT, hmirrors⟩ :=
    (begin_mirrors m g seed hstart).passes (p := c.problem m g) h hpasses
  exact ⟨T, ⟨hS.graph, seed, hseed, hT⟩, hmirrors⟩

theorem Mirrors.moment_of (h : c.Mirrors R d) {m : Method} {g : FlowGraph} {start : σ}
    {start' : τ} (hstart : R start start') {T : Run τ} (hT : d.Moment m start' g T) :
    ∃ S, c.Moment m start g S ∧ Run.Mirrors R S T := by
  obtain ⟨seed, hseed, hpasses⟩ := hT.passes
  obtain ⟨S, hS, hmirrors⟩ :=
    (begin_mirrors m g seed hstart).passes_of (p := c.problem m g) h hpasses
  exact ⟨S, ⟨hT.graph, seed, hseed, hS⟩, hmirrors⟩

theorem Mirrors.analyze (h : c.Mirrors R d) (m : Method) :
    Echoes R (c.analyze m) (d.analyze m) := by
  intro start start' hstart
  unfold Config.analyze
  cases m.checkLocals with
  | error e => exact ⟨rfl, hstart⟩
  | ok checked =>
      cases m.graph with
      | error e => exact ⟨rfl, hstart⟩
      | ok g =>
          cases m.entryFrame with
          | error e => exact ⟨rfl, hstart⟩
          | ok seed =>
              obtain ⟨final, hfinal, heq⟩ := h.solved m g seed hstart
              change Agrees R (outcome _ (c.solved m g seed start), _)
                (outcome _ (d.solved m g seed start'), (d.solved m g seed start').world)
              rw [heq]
              exact ⟨rfl, hfinal⟩

theorem Mirrors.analyzeAll (h : c.Mirrors R d) (ms : List Method) :
    Echoes R (c.analyzeAll ms) (d.analyzeAll ms) := by
  induction ms with
  | nil => exact .pure _
  | cons m ms ih =>
      exact (h.analyze m).bind fun result => ih.bind fun results => .pure (result :: results)

end Config

end FrameFlow
