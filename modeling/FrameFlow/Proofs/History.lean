import FrameFlow.Proofs.Mirror
import FrameFlow.Proofs.Reachable
import FrameFlow.Proofs.Stopping

/-!
# What a run asks

A configuration can be watched: it answers as before, and every question about a
static call is noted together with its answer.  Watching changes nothing about a
run, so the notes are its history.

One visit notes very little: the answer of the call source, the call made by the
host if that answer leaves the result open, and the verdict of the policy if the
call fails.  Every note in the history of a run was made in one of its visits.
-/

namespace FrameFlow

variable {σ α : Type}

/-- What was asked of a call source, of a host or of a policy, and the answer. -/
inductive Event where
  | consulted (m : MethodRef) (args : List Value) (answer : Option Value)
  | called (m : MethodRef) (args : List HostValue) (answer : Answer)
  | checked (frames : Array (Option Frame)) (verdict : Bool)

structure Watched (σ : Type) where
  world : σ
  events : List Event

def noting (note : α → List Event) (ask : σ → α × σ) (w : Watched σ) : α × Watched σ :=
  ((ask w.world).1, ⟨(ask w.world).2, w.events ++ note (ask w.world).1⟩)

def Host.watched (host : Host σ) : Host (Watched σ) := fun m args =>
  noting (fun answer => [.called m args answer]) (host m args)

namespace Config

def watched (cfg : Config σ) : Config (Watched σ) where
  mode := cfg.mode
  fields := cfg.fields.map fun source f => noting (fun _ => []) (source f)
  calls := cfg.calls.map fun source m args =>
    noting (fun answer => [.consulted m args answer]) (source m args)
  host := cfg.host.map Host.watched
  policy := cfg.policy.map fun policy m frames =>
    noting (fun verdict => [.checked frames verdict]) (policy m frames)

/-- All that an analysis asks about static calls, in order. -/
def history (cfg : Config σ) (m : Method) (start : σ) : List Event :=
  (cfg.watched.analyze m ⟨start, []⟩).2.events

theorem watched_mirrors (cfg : Config σ) :
    cfg.watched.Mirrors (fun w world => w.world = world) cfg := by
  have hnoting {α : Type} (note : α → List Event) (ask : σ → α × σ) :
      Echoes (fun (w : Watched σ) world => w.world = world) (noting note ask) ask := by
    rintro w _ rfl
    exact ⟨rfl, rfl⟩
  constructor
  case mode => rfl
  case fields => exact rel_map_left fun source _ f => hnoting _ (source f)
  case calls => exact rel_map_left fun source _ m args => hnoting _ (source m args)
  case host => exact rel_map_left fun host _ m args => hnoting _ (host m args)
  case policy => exact rel_map_left fun policy _ m frames => hnoting _ (policy m frames)

theorem watched_analyze (cfg : Config σ) (m : Method) (start : σ) :
    (cfg.watched.analyze m ⟨start, []⟩).1 = (cfg.analyze m start).1 := by
  have hstart : (⟨start, []⟩ : Watched σ).world = start := rfl
  exact (cfg.watched_mirrors.analyze m hstart).1

theorem watched_solved (cfg : Config σ) (m : Method) (g : FlowGraph) (seed : Frame) (start : σ) :
    cfg.solved m g seed start =
      (cfg.watched.solved m g seed ⟨start, []⟩).inWorld (cfg.solved m g seed start).world := by
  have hstart : (⟨start, []⟩ : Watched σ).world = start := rfl
  obtain ⟨world, _, heq⟩ := cfg.watched_mirrors.solved m g seed hstart
  rw [heq]
  rfl

/-! ## One call -/

inductive Consults (cfg : Config σ) (m : MethodRef) (args : List Value) :
    List Event → Option Value → Prop
  | absent : cfg.calls = none → Consults cfg m args [] m.unresolvedResult
  | asked {source : CallSource σ} (world : σ) : cfg.calls = some source →
      Consults cfg m args [.consulted m args (source m args world).1]
        (m.shapedResult (source m args world).1)

structure Simulates (cfg : Config σ) (args : List Value) (result : Option Value)
    (hostArgs : List HostValue) : Prop where
  mode : cfg.mode = .simulated
  isOpen : cfg.calls = none ∨ isOpen result = true
  args : Value.hostArguments? args = some hostArgs

inductive Asks (cfg : Config σ) (position : Nat) (m : MethodRef) (args : List Value) :
    List Event → Except Failure (Option Value) → Prop
  | settled {asked : List Event} {result : Option Value} :
      cfg.Consults m args asked result → Asks cfg position m args asked (.ok result)
  | simulated {asked : List Event} {result : Option Value} {hostArgs : List HostValue}
      (answer : Answer) : cfg.Consults m args asked result → cfg.Simulates args result hostArgs →
      Asks cfg position m args (asked ++ [.called m hostArgs answer]) (answer.accept position m)

private theorem simulateCall_asks {cfg : Config σ} {position : Nat} {m : MethodRef}
    {args : List Value}
    {asked : List Event} {result : Option Value} (hasked : cfg.Consults m args asked result)
    (hopen : cfg.calls = none ∨ isOpen result = true) {w : Watched σ} {before : List Event}
    (hw : w.events = before ++ asked) :
    ∃ events, (cfg.watched.simulateCall position m args result w).2.events = before ++ events ∧
      cfg.Asks position m args events (cfg.watched.simulateCall position m args result w).1 := by
  unfold simulateCall
  split
  · rename_i host hostArgs hmode hhost hargs
    obtain ⟨inner, _, rfl⟩ := Option.map_eq_some_iff.1 hhost
    refine ⟨asked ++ [.called m hostArgs (inner m hostArgs w.world).1], ?_, ?_⟩
    · simp [Host.realize, Host.watched, noting, hw]
    · exact .simulated _ hasked ⟨hmode, hopen, hargs⟩
  · exact ⟨asked, hw, .settled hasked⟩

theorem staticCall_asks (cfg : Config σ) (position : Nat) (m : MethodRef) (args : List Value)
    (w : Watched σ) :
    ∃ events, (cfg.watched.staticCall position m args w).2.events = w.events ++ events ∧
      cfg.Asks position m args events (cfg.watched.staticCall position m args w).1 := by
  cases hcalls : cfg.calls with
  | none =>
      have hnone : cfg.watched.calls = none := by simp [watched, hcalls]
      simp only [staticCall, hnone]
      exact simulateCall_asks (.absent hcalls) (.inl hcalls) (by simp)
  | some source =>
      have hsome : cfg.watched.calls = some fun m args =>
          noting (fun answer => [.consulted m args answer]) (source m args) := by
        simp [watched, hcalls]
      have hasked : cfg.Consults m args _ _ := .asked w.world hcalls
      simp only [staticCall, hsome, noting]
      by_cases hopen : isOpen (m.shapedResult (source m args w.world).1) = true
      · simp only [hopen, if_true]
        exact simulateCall_asks hasked (.inr hopen) rfl
      · simp only [hopen, Bool.false_eq_true, if_false]
        exact ⟨_, rfl, .settled hasked⟩

/-! ## One instruction -/

theorem transfer_asks (cfg : Config σ) (position : Nat) (insn : Insn Nat) (F : Frame)
    (w : Watched σ) :
    ((cfg.watched.transfer position insn F w).2.events = w.events ∧
        ∀ f, (cfg.watched.transfer position insn F w).1 ≠ .error (.simulation f)) ∨
      ∃ m args G events result, insn = .invoke .static m ∧
        F.popWidths m.paramWidths = .ok (args, G) ∧ cfg.Asks position m args events result ∧
        (cfg.watched.transfer position insn F w).2.events = w.events ++ events ∧
        ∀ f, (cfg.watched.transfer position insn F w).1 = .error (.simulation f) ↔
          result = .error f := by
  rcases asks_cases insn with ⟨field, rfl⟩ | ⟨m, rfl⟩ | ⟨hfield, hcall⟩
  · left
    constructor
    · simp only [transfer, staticField, watched]
      cases cfg.fields <;> simp [noting]
    · intro f
      exact ofFrame_ne_simulation
  · cases hpop : F.popWidths m.paramWidths with
    | error e =>
        left
        simp [transfer, hpop]
    | ok x =>
        right
        obtain ⟨events, hevents, hasks⟩ := staticCall_asks cfg position m x.1 w
        refine ⟨m, x.1, x.2, events, _, rfl, hpop, hasks, ?_, fun f => ?_⟩
        · rw [transfer_invokeStatic_world _ _ _ hpop]
          exact hevents
        · simp only [transfer, hpop]
          generalize cfg.watched.staticCall position m x.1 w = y
          obtain ⟨failure | result, _⟩ := y
          · simp
          · simp [ofFrame_ne_simulation]
  · left
    rw [transfer_eq_effect cfg.watched w position F hfield hcall]
    exact ⟨rfl, fun f => ofFrame_ne_simulation⟩

theorem events_subset_transfer (cfg : Config σ) (position : Nat) (insn : Insn Nat) (F : Frame)
    (w : Watched σ) : w.events ⊆ (cfg.watched.transfer position insn F w).2.events := by
  rcases cfg.transfer_asks position insn F w with ⟨hsame, _⟩ | ⟨_, _, _, _, _, _, _, _, hnew, _⟩
  · rw [hsame]
    exact List.Subset.refl _
  · rw [hnew]
    exact List.subset_append_left _ _

/-! ## Notes of a visit -/

inductive Logs (cfg : Config σ) (position : Nat) (m : MethodRef) (args : List Value) :
    List Event → Prop
  | call {events : List Event} {result : Except Failure (Option Value)} :
      cfg.Asks position m args events result → Logs cfg position m args events
  | check {events : List Event} {f : Failure} (frames : Array (Option Frame)) (verdict : Bool) :
      cfg.Asks position m args events (.error f) →
      Logs cfg position m args (events ++ [.checked frames verdict])

section

variable {cfg : Config σ} {position : Nat} {m : MethodRef} {args : List Value}
  {events : List Event}

private theorem Consults.not_called {result : Option Value} (h : cfg.Consults m args events result)
    (callee : MethodRef) (hostArgs : List HostValue) (answer : Answer) :
    .called callee hostArgs answer ∉ events := by
  cases h <;> simp

theorem Asks.not_checked {outcome : Except Failure (Option Value)}
    (h : cfg.Asks position m args events outcome) (frames : Array (Option Frame))
    (verdict : Bool) : .checked frames verdict ∉ events := by
  cases h with
  | settled hasked => cases hasked <;> simp
  | simulated answer hasked _ => cases hasked <;> simp

theorem Asks.of_error {f : Failure} {outcome : Except Failure (Option Value)}
    (h : cfg.Asks position m args events outcome) (hf : outcome = .error f) :
    ∃ asked result hostArgs answer, events = asked ++ [.called m hostArgs answer] ∧
      cfg.Consults m args asked result ∧ cfg.Simulates args result hostArgs ∧
      Answer.accept position m answer = .error f := by
  cases h with
  | settled _ => cases hf
  | simulated answer hasked hsimulates => exact ⟨_, _, _, answer, rfl, hasked, hsimulates, hf⟩

theorem Logs.called (h : cfg.Logs position m args events) {before after : List Event}
    {callee : MethodRef} {hostArgs : List HostValue} {answer : Answer}
    (hsplit : events = before ++ .called callee hostArgs answer :: after) :
    callee = m ∧ ∃ result, cfg.Consults m args before result ∧
      cfg.Simulates args result hostArgs := by
  have hsame {asked rest : List Event} {result : Option Value} {hostArgs' : List HostValue}
      {answer' : Answer} (hasked : cfg.Consults m args asked result)
      (hsimulates : cfg.Simulates args result hostArgs')
      (hrest : .called callee hostArgs answer ∉ rest)
      (heq : asked ++ .called m hostArgs' answer' :: rest =
        before ++ .called callee hostArgs answer :: after) :
      callee = m ∧ ∃ result, cfg.Consults m args before result ∧
        cfg.Simulates args result hostArgs := by
    obtain ⟨rfl, hcall, _⟩ :=
      (List.append_cons_inj_of_notMem (hasked.not_called _ _ _) hrest).1 heq
    cases hcall
    exact ⟨rfl, result, hasked, hsimulates⟩
  cases h with
  | call hasks =>
      cases hasks with
      | settled hasked =>
          have hnone := hasked.not_called callee hostArgs answer
          simp [hsplit] at hnone
      | simulated _ hasked hsimulates => exact hsame hasked hsimulates (by simp) hsplit
  | check frames verdict hasks =>
      obtain ⟨asked, result, _, _, rfl, hasked, hsimulates, _⟩ := hasks.of_error rfl
      rw [List.append_assoc] at hsplit
      exact hsame hasked hsimulates (by simp) hsplit

theorem Logs.checked (h : cfg.Logs position m args events) {before after : List Event}
    {frames : Array (Option Frame)} {verdict : Bool}
    (hsplit : events = before ++ .checked frames verdict :: after) :
    cfg.mode = .simulated ∧ ∃ asked hostArgs answer f,
      before = asked ++ [.called m hostArgs answer] ∧
        Answer.accept position m answer = .error f := by
  cases h with
  | call hasks =>
      have hnone := hasks.not_checked frames verdict
      simp [hsplit] at hnone
  | check _ _ hasks =>
      obtain ⟨rfl, _⟩ :=
        (List.append_cons_inj_of_notMem (hasks.not_checked _ _) (by simp)).1 hsplit
      obtain ⟨asked, _, hostArgs, answer, heq, _, hsimulates, hrefused⟩ := hasks.of_error rfl
      exact ⟨hsimulates.mode, asked, hostArgs, answer, _, heq, hrefused⟩

end

end Config

def Problem.watched (p : Problem σ) : Problem (Watched σ) :=
  p.withConfig p.config.watched

namespace Run

variable {p : Problem σ}

theorem tolerates_events (S : Run (Watched σ)) :
    (p.config.policy = none ∧ S.tolerates p.watched = (false, S.world)) ∨
      (S.tolerates p.watched).2.events =
        S.world.events ++ [.checked S.frames (S.tolerates p.watched).1] := by
  cases hpolicy : p.config.policy with
  | none => simp [tolerates, Problem.watched, Problem.withConfig, Config.watched, hpolicy]
  | some policy =>
      simp [tolerates, Problem.watched, Problem.withConfig, Config.watched, hpolicy, noting]

structure CallsAt (p : Problem σ) (S : Run (Watched σ)) (i : Nat) (m : MethodRef) (F : Frame)
    (args : List Value) : Prop where
  frame : S.frames[i]? = some (some F)
  insn : p.method.code[i]? = some (.invoke .static m)
  popped : ∃ G, F.popWidths m.paramWidths = .ok (args, G)

/-- All that can come of a visit of `i`. -/
inductive Course (p : Problem σ) (S : Run (Watched σ)) (i : Nat) (T : Run (Watched σ)) : Prop
  | quiet : Calm S T → T.world.events = S.world.events → Course p S i T
  | called {m : MethodRef} {F : Frame} {args : List Value} {events : List Event}
      {result : Except Failure (Option Value)} : Calm S T → CallsAt p S i m F args →
      p.config.Asks i m args events result → T.world.events = S.world.events ++ events →
      Course p S i T
  | refused {m : MethodRef} {F : Frame} {args : List Value} {events : List Event} {f : Failure} :
      CallsAt p S i m F args → p.config.Asks i m args events (.error f) →
      T.stopped = some (.simulation f) → T.failures = S.failures →
      ((p.config.policy = none ∧ T.world.events = S.world.events ++ events) ∨
        T.world.events = S.world.events ++ (events ++ [.checked T.frames false])) →
      Course p S i T
  | tolerated {m : MethodRef} {F : Frame} {args : List Value} {events : List Event} {f : Failure}
      (frames : Array (Option Frame)) : CallsAt p S i m F args →
      p.config.Asks i m args events (.error f) →
      (p.config.watched.transfer i (.invoke .static m) F S.world).1 = .error (.simulation f) →
      Calm (S.record f) T →
      T.world.events = S.world.events ++ (events ++ [.checked frames true]) → Course p S i T

private theorem fail_course {S U : Run (Watched σ)} {i : Nat} {m : MethodRef} {F : Frame}
    {args : List Value} {events : List Event} {f : Failure} (hat : CallsAt p S i m F args)
    (hasks : p.config.Asks i m args events (.error f))
    (hfailed : (p.config.watched.transfer i (.invoke .static m) F S.world).1 =
      .error (.simulation f))
    (hU : Calm S U) (hevents : U.world.events = S.world.events ++ events) :
    Course p S i (U.fail p.watched i (.invoke .static m) F f) := by
  have hpolicy := tolerates_events (p := p) U
  have hworld := fail_world (p := p.watched) U i (.invoke .static m) F f
  rcases fail_cases (p := p.watched) U i (.invoke .static m) F f with ⟨hno, heq⟩ | ⟨hyes, heq⟩
  · refine .refused hat hasks (by rw [heq]; rfl) (by rw [heq]; exact hU.failures) ?_
    rw [hworld]
    rcases hpolicy with ⟨hnone, hsame⟩ | hchecked
    · left
      rw [hsame]
      exact ⟨hnone, hevents⟩
    · right
      rw [hchecked, hno, hevents, heq, List.append_assoc]
      rfl
  · rcases hpolicy with ⟨_, hsame⟩ | hchecked
    · rw [hsame] at hyes
      cases hyes
    · refine .tolerated U.frames hat hasks hfailed ?_ ?_
      · rw [heq]
        exact ((hU.withWorld _).record f).trans (finish_calm (p := p.watched) _ i _)
      · rw [hworld, hchecked, hyes, hevents, List.append_assoc]

private theorem visit_course (S : Run (Watched σ)) (i : Nat) :
    Course p S i (S.visit p.watched i) := by
  rcases visit_cases (p := p.watched) S i with hsame | ⟨F, insn, hF, hinsn, hvisit⟩
  · rw [hsame]
    exact .quiet (.refl S) rfl
  · rw [hvisit]
    have hcalm := offerHandlers_calm (p := p.watched) i F S
    cases hstopped : (S.offerHandlers p.watched i F).stopped with
    | some e =>
        rw [carryOut_of_stopped hstopped]
        exact .quiet hcalm (by simp)
    | none =>
        have hasks := p.config.transfer_asks i insn F S.world
        have hcases := carryOut_cases (p := p.watched) hstopped i insn F
        simp only [offerHandlers_world] at hcases
        rcases hasks with ⟨hsame, hsafe⟩ | ⟨m, args, G, events, result, rfl, hpop, hasks, hevents,
          hfails⟩
        · rcases hcases with ⟨_, heq⟩ | ⟨f, hfailed, _⟩
          · rw [heq]
            refine .quiet ?_ ?_
            · exact (hcalm.withWorld _).trans (finish_calm (p := p.watched) _ i _)
            · rw [finish_world]
              exact hsame
          · exact absurd hfailed (hsafe f)
        · have hat : CallsAt p S i m F args := ⟨hF, hinsn, G, hpop⟩
          rcases hcases with ⟨_, heq⟩ | ⟨f, hfailed, heq⟩
          · rw [heq]
            refine .called ?_ hat hasks ?_
            · exact (hcalm.withWorld _).trans (finish_calm (p := p.watched) _ i _)
            · rw [finish_world]
              exact hevents
          · rw [(hfails f).1 hfailed] at hasks
            rw [heq]
            exact fail_course hat hasks hfailed (hcalm.withWorld _) hevents

theorem pick_course (S : Run (Watched σ)) (i : Nat) : Course p S i (S.pick p.watched i) := by
  have hat {m : MethodRef} {F : Frame} {args : List Value} (h : CallsAt p (S.taken i) i m F args) :
      CallsAt p S i m F args := ⟨h.frame, h.insn, h.popped⟩
  have hcalm : Calm S (S.taken i) := ⟨rfl, fun _ h => h⟩
  cases visit_course (p := p) (S.taken i) i with
  | quiet h hsame => exact .quiet (hcalm.trans h) hsame
  | called h hcalls hasks hevents => exact .called (hcalm.trans h) (hat hcalls) hasks hevents
  | refused hcalls hasks hstopped hfailures hevents =>
      exact .refused (hat hcalls) hasks hstopped hfailures hevents
  | tolerated frames hcalls hasks hfailed h hevents =>
      exact .tolerated frames (hat hcalls) hasks hfailed ((hcalm.record _).trans h) hevents

theorem pick_logs (S : Run (Watched σ)) (i : Nat) :
    (S.pick p.watched i).world.events = S.world.events ∨
      ∃ m F args events, CallsAt p S i m F args ∧ p.config.Logs i m args events ∧
        (S.pick p.watched i).world.events = S.world.events ++ events := by
  cases pick_course (p := p) S i with
  | quiet _ hsame => exact .inl hsame
  | called _ hat hasks hevents => exact .inr ⟨_, _, _, _, hat, .call hasks, hevents⟩
  | refused hat hasks _ _ hevents =>
      rcases hevents with ⟨_, hevents⟩ | hevents
      · exact .inr ⟨_, _, _, _, hat, .call hasks, hevents⟩
      · exact .inr ⟨_, _, _, _, hat, .check _ _ hasks, hevents⟩
  | tolerated frames hat hasks _ _ hevents =>
      exact .inr ⟨_, _, _, _, hat, .check _ _ hasks, hevents⟩

/-! ## Notes of a run -/

/-- Every note was made in a visit, after what was noted before that visit. -/
theorem Passes.split_events {S T : Run (Watched σ)} (h : Passes p.watched S T)
    (hS : S.world.events = []) {e : Event} {before after : List Event}
    (hsplit : T.world.events = before ++ e :: after) :
    ∃ U i front back, Passes p.watched S U ∧ U.isRunning = true ∧ U.pending.head? = some i ∧
      before = U.world.events ++ front ∧
      (U.pick p.watched i).world.events = U.world.events ++ (front ++ e :: back) := by
  induction h generalizing after with
  | refl => simp [hS] at hsplit
  | @step V hV hrunning ih =>
      obtain ⟨i, hi, hstep⟩ := step_eq_pick (p := p.watched) hrunning
      have hlogs : ∃ new, (V.pick p.watched i).world.events = V.world.events ++ new := by
        rcases pick_logs (p := p) V i with hsame | ⟨_, _, _, new, _, _, hnew⟩
        · exact ⟨[], hsame.trans (List.append_nil _).symm⟩
        · exact ⟨new, hnew⟩
      obtain ⟨new, hnew⟩ := hlogs
      rw [hstep, hnew, List.append_eq_append_iff] at hsplit
      rcases hsplit with ⟨front, rfl, rfl⟩ | ⟨rest, hbefore, hrest⟩
      · exact ⟨V, i, front, after, hV, hrunning, hi, rfl, hnew⟩
      · cases rest with
        | nil =>
            refine ⟨V, i, [], after, hV, hrunning, hi, ?_, ?_⟩
            · simpa using hbefore.symm
            · rw [hnew, hrest]
              simp
        | cons x rest =>
            obtain ⟨rfl, _⟩ := List.cons.inj hrest
            exact ih hbefore

end Run

namespace Config

variable {cfg : Config σ} {m : Method} {start : σ}

/-- The watched analysis of `m` is about to visit the static call of `callee` at `i`. -/
structure Visiting (cfg : Config σ) (m : Method) (start : σ) (g : FlowGraph)
    (S : Run (Watched σ)) (i : Nat) (callee : MethodRef) (F : Frame) : Prop
    extends cfg.watched.Moment m ⟨start, []⟩ g S where
  running : S.isRunning = true
  next : S.pending.head? = some i
  insn : m.code[i]? = some (.invoke .static callee)
  frame : S.frames[i]? = some (some F)

theorem Visiting.unwatched {g : FlowGraph} {S : Run (Watched σ)} {i : Nat} {callee : MethodRef}
    {F : Frame} (h : cfg.Visiting m start g S i callee F) :
    cfg.Moment m start g (S.inWorld S.world.world) := by
  have hstart : (⟨start, []⟩ : Watched σ).world = start := rfl
  obtain ⟨T, hT, _, rfl, rfl⟩ := cfg.watched_mirrors.moment hstart h.toMoment
  exact hT

theorem Visiting.reachable {g : FlowGraph} {S : Run (Watched σ)} {i : Nat} {callee : MethodRef}
    {F : Frame} (h : cfg.Visiting m start g S i callee F) : g.Reachable i := by
  obtain ⟨seed, _, hpasses⟩ := h.passes
  exact (hpasses.leads.confined h.graph).frames i F h.frame

theorem history_eq (cfg : Config σ) {g : FlowGraph} {seed : Frame}
    (hlocals : m.checkLocals = .ok ()) (hgraph : m.graph = .ok g)
    (hseed : m.entryFrame = .ok seed) (start : σ) :
    cfg.history m start = (cfg.watched.solved m g seed ⟨start, []⟩).world.events := by
  simp only [history, analyze, hlocals, hgraph, hseed]
  rfl

theorem history_cases (cfg : Config σ) (m : Method) (start : σ) :
    cfg.history m start = [] ∨
      ∃ g seed, m.graph = .ok g ∧ m.entryFrame = .ok seed ∧
        cfg.history m start = (cfg.watched.solved m g seed ⟨start, []⟩).world.events := by
  cases hlocals : m.checkLocals with
  | error e => exact .inl (by simp [history, analyze, hlocals])
  | ok checked =>
      cases hgraph : m.graph with
      | error e => exact .inl (by simp [history, analyze, hlocals, hgraph])
      | ok g =>
          cases hseed : m.entryFrame with
          | error e => exact .inl (by simp [history, analyze, hlocals, hgraph, hseed])
          | ok seed => exact .inr ⟨g, seed, rfl, rfl, cfg.history_eq hlocals hgraph hseed start⟩

theorem Moment.visiting {g : FlowGraph} {T : Run (Watched σ)}
    (hT : cfg.watched.Moment m ⟨start, []⟩ g T) {e : Event} {before after : List Event}
    (h : T.world.events = before ++ e :: after) :
    ∃ S i callee F args front back, cfg.Visiting m start g S i callee F ∧
      (∃ G, F.popWidths callee.paramWidths = .ok (args, G)) ∧
      before = S.world.events ++ front ∧ cfg.Logs i callee args (front ++ e :: back) := by
  obtain ⟨seed, hseed, hsolving⟩ := hT.passes
  obtain ⟨S, i, front, back, hpasses, hrunning, hi, hbefore, hnew⟩ :=
    Run.Passes.split_events (p := cfg.problem m g) hsolving rfl h
  rcases Run.pick_logs (p := cfg.problem m g) S i with hsame |
    ⟨callee, F, args, events, hat, hlogs, hevents⟩
  · have hnone := hnew.symm.trans hsame
    simp at hnone
  · have heq : events = front ++ e :: back := List.append_cancel_left (hevents.symm.trans hnew)
    rw [heq] at hlogs
    exact ⟨S, i, callee, F, args, front, back,
      ⟨⟨hT.graph, seed, hseed, hpasses⟩, hrunning, hi, hat.insn, hat.frame⟩, hat.popped, hbefore,
      hlogs⟩

theorem history_visiting {e : Event} {before after : List Event}
    (h : cfg.history m start = before ++ e :: after) :
    ∃ g S i callee F args front back, cfg.Visiting m start g S i callee F ∧
      (∃ G, F.popWidths callee.paramWidths = .ok (args, G)) ∧
      before = S.world.events ++ front ∧ cfg.Logs i callee args (front ++ e :: back) := by
  rcases history_cases cfg m start with hnone | ⟨g, seed, hgraph, hseed, hevents⟩
  · simp [hnone] at h
  · have hsolved : cfg.watched.Moment m ⟨start, []⟩ g (cfg.watched.solved m g seed ⟨start, []⟩) :=
      ⟨hgraph, seed, hseed, Run.solve_passes _ _⟩
    exact ⟨g, hsolved.visiting (hevents.symm.trans h)⟩

end Config

end FrameFlow
