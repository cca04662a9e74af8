import FrameFlow.Proofs.Respect

/-!
# Answers from outside

Two instructions ask about other classes: reading a static field and a static
call.  Everything else is the instruction's own effect.  A failed call that is
tolerated counts as one with an unresolved result, so what goes on from an
instruction is decided by the values of fields and the results of calls alone.

A configuration is repeatable in a set of worlds when every question has one
answer in all of them and asking does not lead out of them.  Asking a repeatable
host through a memo is repeatable again.
-/

namespace FrameFlow

variable {σ α β : Type}

/-- The same answer in all worlds of `I`, which asking does not leave. -/
def Repeats (I : σ → Prop) (ask : σ → α × σ) : Prop :=
  ∃ a, ∀ world, I world → (ask world).1 = a ∧ I (ask world).2

namespace Repeats

variable {I : σ → Prop}

theorem pure (a : α) : Repeats I fun world => (a, world) :=
  ⟨a, fun _ hworld => ⟨rfl, hworld⟩⟩

theorem bind {ask : σ → α × σ} {next : α → σ → β × σ} (hask : Repeats I ask)
    (hnext : ∀ a, Repeats I (next a)) :
    Repeats I fun world => next (ask world).1 (ask world).2 := by
  obtain ⟨a, ha⟩ := hask
  obtain ⟨b, hb⟩ := hnext a
  refine ⟨b, fun world hworld => ?_⟩
  obtain ⟨hanswer, hkept⟩ := ha world hworld
  simp only [hanswer]
  exact hb _ hkept

theorem answer_eq {ask : σ → α × σ} (h : Repeats I ask) {world world' : σ} (hworld : I world)
    (hworld' : I world') : (ask world).1 = (ask world').1 := by
  obtain ⟨a, ha⟩ := h
  rw [(ha world hworld).1, (ha world' hworld').1]

theorem world {ask : σ → α × σ} (h : Repeats I ask) {world : σ} (hworld : I world) :
    I (ask world).2 := by
  obtain ⟨a, ha⟩ := h
  exact (ha world hworld).2

end Repeats

namespace Config

/-- A policy may answer as it likes. -/
structure Repeatable (cfg : Config σ) (I : σ → Prop) : Prop where
  fields : ∀ source, cfg.fields = some source → ∀ f, Repeats I (source f)
  calls : ∀ source, cfg.calls = some source → ∀ m args, Repeats I (source m args)
  host : ∀ host, cfg.host = some host → ∀ m args, Repeats I (host m args)
  policy : ∀ policy, cfg.policy = some policy →
    ∀ m frames world, I world → I (policy m frames world).2

/-! ## What goes on from an instruction -/

def callResult (cfg : Config σ) (world : σ) (position : Nat) (m : MethodRef)
    (args : List Value) : Option Value :=
  match (cfg.staticCall position m args world).1 with
  | .ok result => result
  | .error _ => m.unresolvedResult

/-- The frame for the normal successors, every failed call being tolerated. -/
def onward (cfg : Config σ) (world : σ) (position : Nat) (insn : Insn Nat) (F : Frame) :
    Except FrameError Frame :=
  match (cfg.transfer position insn F world).1 with
  | .ok G => .ok G
  | .error (.frame cause) => .error cause
  | .error (.simulation _) => insn.effect F

theorem onward_of_failed {cfg : Config σ} {world : σ} {position : Nat} {insn : Insn Nat}
    {F : Frame} {f : Failure}
    (h : (cfg.transfer position insn F world).1 = .error (.simulation f)) :
    cfg.onward world position insn F = insn.effect F := by
  simp only [onward, h]

theorem onward_getStatic (cfg : Config σ) (world : σ) (position : Nat) (f : FieldRef)
    (F : Frame) :
    cfg.onward world position (.field .getStatic f) F =
      F.push (cfg.staticField f world).1 := by
  simp only [onward, transfer]
  cases F.push (cfg.staticField f world).1 <;> rfl

theorem onward_invokeStatic (cfg : Config σ) (world : σ) (position : Nat) (m : MethodRef)
    (F : Frame) :
    cfg.onward world position (.invoke .static m) F =
      F.popWidths m.paramWidths >>= fun x =>
        x.2.pushResult (cfg.callResult world position m x.1) := by
  simp only [onward, transfer, Insn.effect, InvokeKind.effect, Frame.dropWidths]
  cases F.popWidths m.paramWidths with
  | error e => rfl
  | ok x =>
      obtain ⟨args, G⟩ := x
      change _ = G.pushResult (cfg.callResult world position m args)
      simp only [callResult]
      cases hcall : cfg.staticCall position m args world with
      | mk answer world' =>
          cases answer with
          | error failure => rfl
          | ok result =>
              simp only
              cases G.pushResult result <;> rfl

theorem transfer_invokeStatic_world (cfg : Config σ) (world : σ) (position : Nat) {m : MethodRef}
    {args : List Value} {F G : Frame} (hpop : F.popWidths m.paramWidths = .ok (args, G)) :
    (cfg.transfer position (.invoke .static m) F world).2 =
      (cfg.staticCall position m args world).2 := by
  simp only [transfer, hpop]
  generalize cfg.staticCall position m args world = x
  obtain ⟨_ | _, _⟩ := x <;> rfl

theorem transfer_eq_effect (cfg : Config σ) (world : σ) (position : Nat) {insn : Insn Nat}
    (F : Frame) (hfield : ∀ f, insn ≠ .field .getStatic f)
    (hcall : ∀ m, insn ≠ .invoke .static m) :
    cfg.transfer position insn F world = (Fault.ofFrame (insn.effect F), world) := by
  unfold transfer
  split
  · rename_i f
    exact absurd rfl (hfield f)
  · rename_i m
    exact absurd rfl (hcall m)
  · rfl

theorem onward_eq_effect (cfg : Config σ) (world : σ) (position : Nat) {insn : Insn Nat}
    (F : Frame) (hfield : ∀ f, insn ≠ .field .getStatic f)
    (hcall : ∀ m, insn ≠ .invoke .static m) :
    cfg.onward world position insn F = insn.effect F := by
  simp only [onward, transfer_eq_effect cfg world position F hfield hcall]
  cases insn.effect F <;> rfl

theorem asks_cases (insn : Insn Nat) :
    (∃ f, insn = .field .getStatic f) ∨ (∃ m, insn = .invoke .static m) ∨
      ((∀ f, insn ≠ .field .getStatic f) ∧ ∀ m, insn ≠ .invoke .static m) := by
  by_cases hfield : ∃ f, insn = .field .getStatic f
  · exact .inl hfield
  · by_cases hcall : ∃ m, insn = .invoke .static m
    · exact .inr (.inl hcall)
    · exact .inr (.inr ⟨not_exists.1 hfield, not_exists.1 hcall⟩)

theorem onward_ensures {P : Frame → Prop} (hP : Frame.Held P) (cfg : Config σ) (world : σ)
    (position : Nat) {insn : Insn Nat} {F : Frame} (h : P F) (heffect : Ensures P (insn.effect F)) :
    Ensures P (cfg.onward world position insn F) := by
  rcases asks_cases insn with ⟨f, rfl⟩ | ⟨m, rfl⟩ | ⟨hfield, hcall⟩
  · rw [onward_getStatic]
    exact hP.ensures_push h
  · rw [onward_invokeStatic]
    exact (hP.ensures_popWidths h _).bind fun x hx => hP.ensures_pushResult hx _
  · rw [onward_eq_effect cfg world position F hfield hcall]
    exact heffect

theorem onward_kept {P : Frame → Prop} (hP : Frame.Kept P) (cfg : Config σ) (world : σ)
    (position : Nat) (insn : Insn Nat) {F : Frame} (h : P F) :
    Ensures P (cfg.onward world position insn F) :=
  onward_ensures hP.toHeld cfg world position h (hP.ensures_effect h insn)

end Config

/-! ## Two frames and their answers -/

def Fault.Excused (E : FrameError → Prop) : Fault → Prop
  | frame cause => E cause
  | simulation _ => False

section

variable {E : FrameError → Prop} {V : Value → Value → Prop} {ρ : Frame → Frame → Prop}

theorem Concurs.ofFrame {x y : Except FrameError Frame} (h : Concurs E ρ x y) :
    Concurs (Fault.Excused E) ρ (Fault.ofFrame x) (Fault.ofFrame y) := by
  cases h with
  | ok hFG => exact .ok hFG
  | error e => exact .error _
  | excused y he => exact .excused _ he

theorem ParallelStacks.transfer {σ' : Type} (h : ParallelStacks E V ρ) {c : Config σ}
    {d : Config σ'} {world : σ} {world' : σ'} {position : Nat}
    (hfield : ∀ f, V (c.staticField f world).1 (d.staticField f world').1)
    (hcall : ∀ m args args', List.Forall₂ V args args' →
      Concurs (fun _ => False) (Option.Rel V) (c.staticCall position m args world).1
        (d.staticCall position m args' world').1)
    {F G : Frame} (hFG : ρ F G) {insn : Insn Nat}
    (heffect : Concurs E ρ (insn.effect F) (insn.effect G)) :
    Concurs (Fault.Excused E) ρ (c.transfer position insn F world).1
      (d.transfer position insn G world').1 := by
  rcases Config.asks_cases insn with ⟨f, rfl⟩ | ⟨m, rfl⟩ | ⟨hnofield, hnocall⟩
  · exact (h.push hFG (hfield f)).ofFrame
  · have hpop := h.popWidths hFG m.paramWidths
    simp only [Config.transfer]
    generalize F.popWidths m.paramWidths = x at hpop ⊢
    generalize G.popWidths m.paramWidths = y at hpop ⊢
    cases hpop with
    | error e => exact .error _
    | excused y he => exact .excused _ he
    | @ok x y hrest =>
        obtain ⟨args, F'⟩ := x
        obtain ⟨args', G'⟩ := y
        have hanswers := hcall m args args' hrest.1
        simp only
        generalize c.staticCall position m args world = x at hanswers ⊢
        generalize d.staticCall position m args' world' = y at hanswers ⊢
        obtain ⟨answer, _⟩ := x
        obtain ⟨answer', _⟩ := y
        cases hanswers with
        | ok hresult => exact (h.pushResult hrest.2 hresult).ofFrame
        | error failure => exact .error _
        | excused _ hnone => exact hnone.elim
  · rw [Config.transfer_eq_effect c world position F hnofield hnocall,
      Config.transfer_eq_effect d world' position G hnofield hnocall]
    exact heffect.ofFrame

theorem ParallelStacks.onward {σ' : Type} (h : ParallelStacks E V ρ) {c : Config σ} {d : Config σ'}
    {world : σ} {world' : σ'} {position : Nat}
    (hfield : ∀ f, V (c.staticField f world).1 (d.staticField f world').1)
    (hcall : ∀ m args args', List.Forall₂ V args args' →
      Option.Rel V (c.callResult world position m args) (d.callResult world' position m args'))
    {F G : Frame} (hFG : ρ F G) {insn : Insn Nat}
    (heffect : Concurs E ρ (insn.effect F) (insn.effect G)) :
    Concurs E ρ (c.onward world position insn F) (d.onward world' position insn G) := by
  rcases Config.asks_cases insn with ⟨f, rfl⟩ | ⟨m, rfl⟩ | ⟨hnofield, hnocall⟩
  · rw [Config.onward_getStatic, Config.onward_getStatic]
    exact h.push hFG (hfield f)
  · rw [Config.onward_invokeStatic, Config.onward_invokeStatic]
    refine (h.popWidths hFG _).bind fun x y ⟨hargs, hrest⟩ => ?_
    exact h.pushResult hrest (hcall m x.1 y.1 hargs)
  · rw [Config.onward_eq_effect c world position F hnofield hnocall,
      Config.onward_eq_effect d world' position G hnofield hnocall]
    exact heffect

end

theorem rel_converse {R : α → β → Prop} {R' : β → α → Prop} {x : Option α} {y : Option β}
    (h : Option.Rel R x y) (hR : ∀ a b, R a b → R' b a) : Option.Rel R' y x := by
  cases h with
  | none => exact .none
  | some hab => exact .some (hR _ _ hab)

namespace Config

/-- Related answers make related frames, in two configurations and their worlds. -/
theorem onward_follows {σ' : Type} {R : Value → Value → Prop} (hR : Respected R) {low : Config σ}
    {high : Config σ'} {world : σ} {world' : σ'}
    (hfield : ∀ f, R (low.staticField f world).1 (high.staticField f world').1)
    (hcall : ∀ position m args args', List.Forall₂ R args args' →
      Option.Rel R (low.callResult world position m args)
        (high.callResult world' position m args'))
    {F G : Frame} (h : Frame.Rel R F G) (position : Nat) (insn : Insn Nat) :
    Follows (Frame.Rel R) (low.onward world position insn F)
      (high.onward world' position insn G) := by
  refine Follows.iff_concurs.2 (hR.parallel.onward hfield (fun m args' args hargs => ?_) h ?_)
  · exact rel_converse (hcall position m args args' hargs.flip) fun _ _ hab => hab
  · exact hR.parallel.effect_of_test hR.instanceTest h insn

end Config

namespace Config

/-! ## Repeatable configurations -/

namespace Repeatable

variable {cfg : Config σ} {I : σ → Prop}

theorem staticField (h : cfg.Repeatable I) (f : FieldRef) : Repeats I (cfg.staticField f) := by
  unfold Config.staticField
  split
  · exact .pure _
  · rename_i source hsource
    exact (h.fields source hsource f).bind fun v => .pure (v.shapedTo f.width)

private theorem simulateCall (h : cfg.Repeatable I) (position : Nat) (m : MethodRef)
    (args : List Value) (answer : Option Value) :
    Repeats I (cfg.simulateCall position m args answer) := by
  unfold Config.simulateCall
  split
  · rename_i host hostArgs _ hhost _
    exact (h.host host hhost m hostArgs).bind fun answer => .pure (answer.accept position m)
  · exact .pure _

theorem staticCall (h : cfg.Repeatable I) (position : Nat) (m : MethodRef)
    (args : List Value) : Repeats I (cfg.staticCall position m args) := by
  unfold Config.staticCall
  split
  · exact h.simulateCall position m args _
  · rename_i source hsource
    have hnext (answer : Option Value) : Repeats I fun world =>
        if isOpen (m.shapedResult answer) then
          cfg.simulateCall position m args (m.shapedResult answer) world
        else (.ok (m.shapedResult answer), world) := by
      split
      · exact h.simulateCall position m args _
      · exact .pure _
    exact (h.calls source hsource m args).bind hnext

theorem transfer (h : cfg.Repeatable I) (position : Nat) (insn : Insn Nat) (F : Frame) :
    Repeats I (cfg.transfer position insn F) := by
  unfold Config.transfer
  split
  · exact (h.staticField _).bind fun v => .pure (Fault.ofFrame (F.push v))
  · rename_i m
    split
    · exact .pure _
    · rename_i args G _
      have hnext (answer : Except Failure (Option Value)) : Repeats I fun world =>
          match answer with
          | .error failure => ((.error (.simulation failure) : Except Fault Frame), world)
          | .ok result => (Fault.ofFrame (G.pushResult result), world) := by
        cases answer <;> exact .pure _
      convert (h.staticCall position m args).bind hnext using 2 with world
      cases cfg.staticCall position m args world with
      | mk answer world' => cases answer <;> rfl
  · exact .pure _

theorem onward_eq (h : cfg.Repeatable I) {world world' : σ} (hworld : I world)
    (hworld' : I world') (position : Nat) (insn : Insn Nat) (F : Frame) :
    cfg.onward world position insn F = cfg.onward world' position insn F := by
  simp only [onward, (h.transfer position insn F).answer_eq hworld hworld']

end Repeatable

end Config

/-! ## A memo changes no answer -/

private theorem Repeats.onWorld {I : σ → Prop} {J : Memo σ → Prop} {ask : σ → α × σ}
    (h : Repeats I ask) (hout : ∀ memo, J memo → I memo.world)
    (hback : ∀ memo world, J memo → I world → J { memo with world := world }) :
    Repeats J (onWorld ask) := by
  obtain ⟨a, ha⟩ := h
  refine ⟨a, fun memo hmemo => ?_⟩
  obtain ⟨hanswer, hkept⟩ := ha memo.world (hout memo hmemo)
  exact ⟨hanswer, hback memo _ hmemo hkept⟩

structure Memo.Faithful (I : σ → Prop) (host : Option (Host σ)) (memo : Memo σ) : Prop where
  world : I memo.world
  answers : ∀ ask, host = some ask → ∀ entry ∈ memo.answers,
    ∀ world, I world → (ask entry.1.1 entry.1.2 world).1 = entry.2

theorem Memo.fresh_faithful {I : σ → Prop} (host : Option (Host σ)) {world : σ}
    (h : I world) : (Memo.fresh world).Faithful I host :=
  ⟨h, fun _ _ _ hentry => absurd hentry List.not_mem_nil⟩

private theorem Memo.Faithful.withWorld {I : σ → Prop} {host : Option (Host σ)} {memo : Memo σ}
    (h : memo.Faithful I host) {world : σ} (hworld : I world) :
    Memo.Faithful I host { memo with world := world } :=
  ⟨hworld, h.answers⟩

theorem Memo.find?_answers {memo : Memo σ} {call : Call} {entry : Call × Answer}
    (h : memo.answers.find? (fun entry => entry.1 = call) = some entry) :
    entry ∈ memo.answers ∧ entry.1 = call := by
  have hkey := List.find?_some h
  exact ⟨List.mem_of_find?_eq_some h, by simpa using hkey⟩

private theorem Memo.Faithful.remember {I : σ → Prop} {ask : Host σ} {memo : Memo σ}
    (h : memo.Faithful I (some ask)) {m : MethodRef} {args : List HostValue} {answer : Answer}
    {world : σ} (hworld : I world) (hanswer : ∀ world, I world → (ask m args world).1 = answer) :
    Memo.Faithful I (some ask) ⟨world, memo.answers ++ [((m, args), answer)]⟩ := by
  refine ⟨hworld, fun ask' hask' entry hentry => ?_⟩
  cases hask'
  rcases List.mem_append.1 hentry with hold | hnew
  · exact h.answers ask rfl entry hold
  · cases List.mem_singleton.1 hnew
    exact hanswer

private theorem Host.remembered_repeats {I : σ → Prop} {ask : Host σ} {m : MethodRef}
    {args : List HostValue} (h : Repeats I (ask m args)) :
    Repeats (Memo.Faithful I (some ask)) (ask.remembered m args) := by
  obtain ⟨answer, hanswer⟩ := h
  refine ⟨answer, fun memo hmemo => ?_⟩
  unfold remembered
  cases hfind : memo.answers.find? fun entry => entry.1 = (m, args) with
  | some entry =>
      obtain ⟨hentry, hkey⟩ := Memo.find?_answers hfind
      have hold := hmemo.answers ask rfl entry hentry memo.world hmemo.world
      rw [hkey] at hold
      exact ⟨hold.symm.trans (hanswer _ hmemo.world).1, hmemo⟩
  | none =>
      obtain ⟨hsame, hkept⟩ := hanswer memo.world hmemo.world
      refine ⟨hsame, hmemo.remember hkept fun world hworld => ?_⟩
      rw [(hanswer world hworld).1, hsame]

theorem Setup.config_repeatable {s : Setup σ} {I : σ → Prop} (h : s.toConfig.Repeatable I) :
    s.config.Repeatable (Memo.Faithful I s.host) := by
  have hlift {α : Type} {ask : σ → α × σ} (hask : Repeats I ask) :
      Repeats (Memo.Faithful I s.host) (FrameFlow.onWorld ask) :=
    hask.onWorld (fun _ hmemo => hmemo.world) fun _ _ hmemo hworld => hmemo.withWorld hworld
  constructor
  case fields =>
    intro source hsource f
    obtain ⟨inner, hinner, rfl⟩ := Option.map_eq_some_iff.1 hsource
    exact hlift (h.fields inner hinner f)
  case calls =>
    intro source hsource m args
    obtain ⟨inner, hinner, rfl⟩ := Option.map_eq_some_iff.1 hsource
    exact hlift (h.calls inner hinner m args)
  case host =>
    intro host hhost m args
    obtain ⟨inner, hinner, rfl⟩ := Option.map_eq_some_iff.1 hhost
    split
    · rw [hinner]
      exact Host.remembered_repeats (h.host inner hinner m args)
    · exact hlift (h.host inner hinner m args)
  case policy =>
    intro policy hpolicy m frames memo hmemo
    obtain ⟨inner, hinner, rfl⟩ := Option.map_eq_some_iff.1 hpolicy
    exact hmemo.withWorld (h.policy inner hinner m frames _ hmemo.world)

end FrameFlow
