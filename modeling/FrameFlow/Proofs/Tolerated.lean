import FrameFlow.Proofs.History
import Mathlib.Data.List.Nodup

/-!
# Tolerated failures

A call that fails stops the run unless the policy tolerates it.  A tolerated
failure is recorded once for each call, and what follows the call sees an
unresolved result from then on: frames only rise, and nothing is above it.
-/

namespace FrameFlow

variable {σ : Type}

/-! ## The instruction after a call -/

private theorem Method.next_lt {m : Method} {g : FlowGraph} (hgraph : m.graph = .ok g) {i : Nat}
    {insn : Insn Nat} (hinsn : m.code[i]? = some insn) (hreach : g.Reachable i)
    (hfalls : insn.fallsThrough = true) : i + 1 < m.code.size := by
  have hnone := fallOff?_eq_none_iff.1 (graph_fallOff? hgraph)
  obtain ⟨rfl, _⟩ := graph_ok hgraph
  exact hnone i insn hinsn hfalls
    ((FlowGraph.isReachable_iff (graph_size_pos hgraph)).2 hreach)

private theorem Method.next_mem_normalEdges {m : Method} {g : FlowGraph} (hgraph : m.graph = .ok g)
    {i : Nat} {insn : Insn Nat} (hinsn : m.code[i]? = some insn) (hreach : g.Reachable i)
    (hfalls : insn.fallsThrough = true) : ⟨i + 1, insn.nextEdgeKind⟩ ∈ g.normalEdges i := by
  have hlt := next_lt hgraph hinsn hreach hfalls
  obtain ⟨rfl, _⟩ := graph_ok hgraph
  simp only [FlowGraph.normalEdges, edgeGraph, Array.getElem?_mapIdx, hinsn, Option.map_some,
    Option.getD_some]
  exact mem_normalEdges.2 (.inr ⟨hfalls, hlt, rfl⟩)

/-! ## Unresolved results -/

private theorem Frame.top?_unresolved_of_le {F G : Frame} (h : F ≤ G) {w : Width}
    (hF : F.top? = some (.unresolved w)) : G.top? = some (.unresolved w) := by
  have hstack := (le_iff_rel.1 h).stack
  simp only [top?] at hF ⊢
  generalize F.stack = s at hF hstack
  generalize G.stack = t at hstack ⊢
  cases hstack with
  | nil => simp at hF
  | cons hle _ =>
      cases hF
      simp [Value.eq_of_unresolved_le hle]

private theorem Frame.top?_of_failed {F H : Frame} {m : MethodRef} {w : Width}
    (h : (Insn.invoke .static m : Insn Nat).effect F = .ok H) (hw : m.resultWidth? = some w) :
    H.top? = some (.unresolved w) := by
  simp only [Insn.effect, InvokeKind.effect] at h
  cases hdrop : F.dropWidths m.paramWidths with
  | error e => simp [hdrop, bind, Except.bind] at h
  | ok G =>
      simp only [hdrop, bind, Except.bind, MethodRef.unresolvedResult, hw, Option.map_some,
        pushResult] at h
      obtain ⟨_, rfl⟩ := push_ok_iff.1 h
      rfl

private theorem Answer.of_accept_error {position : Nat} {m : MethodRef} {answer : Answer}
    {f : Failure}
    (h : answer.accept position m = .error f) : f.position = position ∧ f.method = m := by
  unfold accept at h
  split at h
  · cases h
    exact ⟨rfl, rfl⟩
  · split at h
    · cases h
      exact ⟨rfl, rfl⟩
    · cases h

/-! ## Failures along a run -/

namespace Run

variable {p : Problem σ}

structure Excused (p : Problem σ) (S : Run (Watched σ)) (f : Failure) : Prop where
  mode : p.config.mode = .simulated
  insn : p.method.code[f.position]? = some (.invoke .static f.method)
  reachable : p.graph.Reachable f.position
  result : S.stopped = none → ∀ w, f.method.resultWidth? = some w →
    ∃ G, S.frames[f.position + 1]? = some (some G) ∧ G.top? = some (.unresolved w)

structure Refused (p : Problem σ) (S : Run (Watched σ)) (f : Failure) : Prop where
  mode : p.config.mode = .simulated
  insn : p.method.code[f.position]? = some (.invoke .static f.method)
  reachable : p.graph.Reachable f.position
  frame : ∃ F, S.frames[f.position]? = some (some F)
  asked : ∃ before args answer, Answer.accept f.position f.method answer = .error f ∧
    ((p.config.policy = none ∧ S.world.events = before ++ [.called f.method args answer]) ∨
      S.world.events = before ++ [.called f.method args answer, .checked S.frames false])

structure Gated (p : Problem σ) (S : Run (Watched σ)) : Prop where
  distinct : (S.failures.map Failure.position).Nodup
  excused : ∀ f ∈ S.failures, Excused p S f
  refused : ∀ f, S.stopped = some (.simulation f) → Refused p S f

private theorem record_cases (S : Run σ) (f : Failure) :
    (S.record f).failures = S.failures ∨
      (f.position ∉ S.failures.map Failure.position ∧
        (S.record f).failures = S.failures ++ [f]) := by
  unfold record
  split
  · exact .inl rfl
  · rename_i hnew
    refine .inr ⟨?_, rfl⟩
    simpa using hnew

private theorem Excused.grows {S T : Run (Watched σ)} {f : Failure} (h : Excused p S f)
    (hgrows : Grows S T) : Excused p T f where
  mode := h.mode
  insn := h.insn
  reachable := h.reachable
  result hrunning w hw := by
    obtain ⟨G, hG, htop⟩ := h.result (hgrows.running hrunning) w hw
    obtain ⟨H, hH, hle⟩ := hgrows.frames _ G hG
    exact ⟨H, hH, Frame.top?_unresolved_of_le hle htop⟩

section Step

variable {seed : Frame} {start : σ} {S : Run (Watched σ)} {i : Nat}
  (hgraph : p.method.graph = .ok p.graph) (hseed : p.method.entryFrame = .ok seed)
  (hS : Leads p.watched (Config.begin p.watched seed ⟨start, []⟩) S)

include hgraph hseed hS

/-- A tolerated call leaves its successor with an unresolved result. -/
theorem tolerated_excused {m : MethodRef} {F : Frame} {args : List Value} {events : List Event}
    {f : Failure} (hat : CallsAt p S i m F args)
    (hasks : p.config.Asks i m args events (.error f))
    (hfailed : (p.config.watched.transfer i (.invoke .static m) F S.world).1 =
      .error (.simulation f)) : Excused p (S.pick p.watched i) f := by
  obtain ⟨asked, result, hostArgs, answer, _, _, hsimulates, hrefused⟩ := hasks.of_error rfl
  obtain ⟨rfl, rfl⟩ := Answer.of_accept_error hrefused
  have hreach := (hS.confined hgraph).frames _ F hat.frame
  refine ⟨hsimulates.mode, hat.insn, hreach, fun hrunning w hw => ?_⟩
  have hframes : AllFrames (Frame.Of p.method) S :=
    hS.allFrames (Frame.lasting_of p.method) (begin_allFrames (Method.entryFrame_of hseed) _)
  have hsettled := visit_settled (p := p.watched) (S := S.taken f.position) hframes hat.frame
    hat.insn (fun e he => ?_) hrunning
  · obtain ⟨H, honward, habove⟩ := hsettled.normal
    have heffect := (Config.onward_of_failed hfailed).symm.trans honward
    have hnext := Method.next_mem_normalEdges hgraph hat.insn hreach rfl
    obtain ⟨G, hG, hle⟩ := habove _ hnext
    exact ⟨G, hG, Frame.top?_unresolved_of_le hle (Frame.top?_of_failed heffect hw)⟩
  · have hsize : (S.taken f.position).frames.size = p.method.code.size :=
      hS.frames_size hgraph hseed
    rw [hsize]
    exact Method.edge_target_lt hgraph he

private theorem Gated.pick (h : Gated p S) (hstopped : S.stopped = none) :
    Gated p (S.pick p.watched i) := by
  have hframes : AllFrames (Frame.Of p.method) S :=
    hS.allFrames (Frame.lasting_of p.method) (begin_allFrames (Method.entryFrame_of hseed) _)
  have hgrows : Grows (S.taken i) (S.pick p.watched i) :=
    visit_grows (p := p.watched) (S := S.taken i) hframes i
  have hexcused (f : Failure) (hf : f ∈ S.failures) : Excused p (S.pick p.watched i) f := by
    have hbefore := h.excused f hf
    have htaken : Excused p (S.taken i) f :=
      ⟨hbefore.mode, hbefore.insn, hbefore.reachable, hbefore.result⟩
    exact htaken.grows hgrows
  have hcalm (hT : Calm S (S.pick p.watched i)) : Gated p (S.pick p.watched i) := by
    refine ⟨?_, ?_, fun f hf => ?_⟩
    · rw [hT.failures]
      exact h.distinct
    · rw [hT.failures]
      exact hexcused
    · cases hstopped.symm.trans (hT.stopped f hf)
  cases pick_course (p := p) S i with
  | quiet hT _ => exact hcalm hT
  | called hT _ _ _ => exact hcalm hT
  | refused hat hasks hrefused hfailures hevents =>
      refine ⟨?_, ?_, fun f hf => ?_⟩
      · rw [hfailures]
        exact h.distinct
      · rw [hfailures]
        exact hexcused
      · cases hrefused.symm.trans hf
        obtain ⟨asked, _, hostArgs, answer, rfl, _, hsimulates, hno⟩ := hasks.of_error rfl
        obtain ⟨rfl, rfl⟩ := Answer.of_accept_error hno
        have hreach := (hS.confined hgraph).frames _ _ hat.frame
        obtain ⟨G, hG, _⟩ := hgrows.frames _ _ hat.frame
        refine ⟨hsimulates.mode, hat.insn, hreach, ⟨G, hG⟩, S.world.events ++ asked, hostArgs,
          answer, hno, ?_⟩
        simpa [List.append_assoc] using hevents
  | @tolerated _ _ _ _ f frames hat hasks hfailed hT _ =>
      have hnew := tolerated_excused hgraph hseed hS hat hasks hfailed
      have hnone (f' : Failure) : (S.pick p.watched i).stopped ≠ some (.simulation f') := by
        intro hf'
        have hbefore := hT.stopped f' hf'
        rw [(record_quiet S f).stopped, hstopped] at hbefore
        cases hbefore
      refine ⟨?_, ?_, fun f' hf' => absurd hf' (hnone f')⟩
      all_goals
        rw [hT.failures]
        rcases record_cases S f with hsame | ⟨hfresh, hsame⟩
        all_goals rw [hsame]
      · exact h.distinct
      · rw [List.map_append]
        exact h.distinct.append (List.nodup_singleton _) (List.disjoint_singleton.2 hfresh)
      · exact hexcused
      · intro f' hf'
        rcases List.mem_append.1 hf' with hold | hlast
        · exact hexcused f' hold
        · cases List.mem_singleton.1 hlast
          exact hnew

end Step

theorem Leads.gated {seed : Frame} {start : σ} {T : Run (Watched σ)}
    (h : Leads p.watched (Config.begin p.watched seed ⟨start, []⟩) T)
    (hgraph : p.method.graph = .ok p.graph) (hseed : p.method.entryFrame = .ok seed) :
    Gated p T := by
  apply h.invariant (P := Gated p)
  · refine ⟨List.nodup_nil, ?_, ?_⟩
    · intro f hf
      cases hf
    · intro f hf
      cases hf
  · intro U i hU hgated hstopped _
    exact hgated.pick hgraph hseed hU hstopped

end Run

/-! ## Analyses -/

namespace Config

theorem analyze_simulation {cfg : Config σ} {m : Method} {start : σ} {f : Failure}
    (h : (cfg.analyze m start).1 = .error (.simulation f)) :
    ∃ g seed, m.checkLocals = .ok () ∧ m.graph = .ok g ∧ m.entryFrame = .ok seed ∧
      (cfg.solved m g seed start).stopped = some (.simulation f) := by
  rcases analyze_cases cfg m start with ⟨_, _, heq⟩ | ⟨_, _, _, heq⟩ |
    ⟨g, seed, hlocals, hgraph, hseed, heq⟩
  · rw [heq] at h
    cases h
  · rw [heq] at h
    cases h
  · refine ⟨g, seed, hlocals, hgraph, hseed, ?_⟩
    rcases outcome_error (heq.symm.trans h) with hstopped | ⟨_, hjoin⟩
    · exact hstopped
    · obtain ⟨_, _, _, _, _, hclash⟩ := Value.joinAll_error hjoin
      cases hclash

theorem solved_gated {m : Method} {g : FlowGraph} {seed : Frame} (cfg : Config σ)
    (hgraph : m.graph = .ok g) (hseed : m.entryFrame = .ok seed) (start : σ) :
    Run.Gated (cfg.problem m g) (cfg.watched.solved m g seed ⟨start, []⟩) :=
  Run.Leads.gated (p := cfg.problem m g) (cfg.watched.solved_leads m g seed ⟨start, []⟩) hgraph
    hseed

theorem analyze_refused {cfg : Config σ} {m : Method} {start : σ} {f : Failure}
    (h : (cfg.analyze m start).1 = .error (.simulation f)) :
    ∃ g seed S, m.graph = .ok g ∧ m.entryFrame = .ok seed ∧
      S.frames = (cfg.solved m g seed start).frames ∧ S.world.events = cfg.history m start ∧
      Run.Refused (cfg.problem m g) S f := by
  obtain ⟨g, seed, hlocals, hgraph, hseed, hstopped⟩ := analyze_simulation h
  rw [cfg.watched_solved m g seed start] at hstopped
  refine ⟨g, seed, cfg.watched.solved m g seed ⟨start, []⟩, hgraph, hseed, ?_, ?_, ?_⟩
  · rw [cfg.watched_solved m g seed start]
    rfl
  · exact (cfg.history_eq hlocals hgraph hseed start).symm
  · exact (cfg.solved_gated hgraph hseed start).refused f hstopped

theorem analyze_excused {cfg : Config σ} {m : Method} {start : σ} {a : Analysis}
    (h : (cfg.analyze m start).1 = .ok a) :
    (a.failures.map Failure.position).Nodup ∧
      ∃ g S, m.graph = .ok g ∧ S.stopped = none ∧ S.frames = a.frames ∧
        ∀ f ∈ a.failures, Run.Excused (cfg.problem m g) S f := by
  obtain ⟨g, seed, _, hgraph, hseed, houtcome⟩ := analyze_outcome h
  obtain ⟨hstopped, result, _, rfl⟩ := outcome_ok houtcome
  have hgated := cfg.solved_gated hgraph hseed start
  rw [cfg.watched_solved m g seed start] at hstopped ⊢
  exact ⟨hgated.distinct, g, _, hgraph, hstopped, rfl, hgated.excused⟩

private theorem history_checked {cfg : Config σ} {m : Method} {start : σ}
    {before after : List Event} {frames : Array (Option Frame)} {verdict : Bool}
    (h : cfg.history m start = before ++ .checked frames verdict :: after) :
    cfg.mode = .simulated ∧ ∃ g S i callee F asked args answer f,
      cfg.Visiting m start g S i callee F ∧
        before = S.world.events ++ (asked ++ [.called callee args answer]) ∧
        Answer.accept i callee answer = .error f := by
  obtain ⟨g, S, i, callee, F, _, front, _, hvisiting, _, hbefore, hlogs⟩ := history_visiting h
  obtain ⟨hmode, asked, args, answer, f, rfl, hfailed⟩ := hlogs.checked rfl
  exact ⟨hmode, g, S, i, callee, F, asked, args, answer, f, hvisiting, hbefore, hfailed⟩

/--
An analysis fails with a simulation error only at a reachable static call, which
the policy, if there is one, has just refused on the frames at that time.
Otherwise the failures are recorded, one for each call, and the results of those
calls are unresolved.  The policy is asked only about failed calls.
-/
theorem analyze_failures (cfg : Config σ) (m : Method) (start : σ) :
    (∀ f, (cfg.analyze m start).1 = .error (.simulation f) →
      ∃ g seed, m.graph = .ok g ∧ m.entryFrame = .ok seed ∧ g.Reachable f.position ∧
        m.code[f.position]? = some (.invoke .static f.method) ∧
        (∃ F, (cfg.solved m g seed start).frames[f.position]? = some (some F)) ∧
        ∃ before args answer, Answer.accept f.position f.method answer = .error f ∧
          ((cfg.policy = none ∧ cfg.history m start = before ++ [.called f.method args answer]) ∨
            cfg.history m start = before ++ [.called f.method args answer,
              .checked (cfg.solved m g seed start).frames false])) ∧
      (∀ a, (cfg.analyze m start).1 = .ok a →
        (a.failures.map Failure.position).Nodup ∧
          ∃ g, m.graph = .ok g ∧ ∀ f ∈ a.failures, g.Reachable f.position ∧
            m.code[f.position]? = some (.invoke .static f.method) ∧
            ∀ w, f.method.resultWidth? = some w →
              ∃ G, a.frame? (f.position + 1) = some G ∧ G.top? = some (.unresolved w)) ∧
      (∀ before frames verdict after,
        cfg.history m start = before ++ .checked frames verdict :: after →
          ∃ g S i callee F asked args answer f, cfg.Visiting m start g S i callee F ∧
            before = S.world.events ++ (asked ++ [.called callee args answer]) ∧
            Answer.accept i callee answer = .error f) ∧
      (cfg.mode = .constants →
        (∀ frames verdict, .checked frames verdict ∉ cfg.history m start) ∧
          ∀ a, (cfg.analyze m start).1 = .ok a → a.failures = []) := by
  refine ⟨?_, ?_, ?_, ?_⟩
  · intro f h
    obtain ⟨g, seed, S, hgraph, hseed, hframes, hevents, hrefused⟩ := analyze_refused h
    have hframe := hrefused.frame
    have hasked := hrefused.asked
    rw [hframes] at hframe hasked
    rw [hevents] at hasked
    exact ⟨g, seed, hgraph, hseed, hrefused.reachable, hrefused.insn, hframe, hasked⟩
  · intro a h
    obtain ⟨hdistinct, g, S, hgraph, hstopped, hframes, hexcused⟩ := analyze_excused h
    refine ⟨hdistinct, g, hgraph, fun f hf => ?_⟩
    refine ⟨(hexcused f hf).reachable, (hexcused f hf).insn, fun w hw => ?_⟩
    obtain ⟨G, hG, htop⟩ := (hexcused f hf).result hstopped w hw
    rw [hframes] at hG
    exact ⟨G, by simp [Analysis.frame?, hG], htop⟩
  · intro before frames verdict after h
    exact (history_checked h).2
  · intro hmode
    constructor
    · intro frames verdict hmem
      obtain ⟨before, after, hsplit⟩ := List.append_of_mem hmem
      cases hmode.symm.trans (history_checked hsplit).1
    · intro a h
      obtain ⟨_, _, _, _, _, _, hexcused⟩ := analyze_excused h
      rw [List.eq_nil_iff_forall_not_mem]
      intro f hf
      cases hmode.symm.trans (hexcused f hf).mode

end Config

def ping : MethodRef := ⟨"Net", "ping", ⟨[.base .int], some (.base .int)⟩⟩

def beep : MethodRef := ⟨"Net", "beep", ⟨[], none⟩⟩

def poll : Method where
  owner := "Net"
  name := "poll"
  type := ⟨[], none⟩
  access := .publicStatic
  maxLocals := 1
  maxStack := some 1
  code := #[.const (.int 0), .store .int 0, .const (.int 7), .invoke .static ping, .stack .pop,
    .invoke .static beep, .increment 0 1, .load .int 0, .branch .ne 2, .ret none]
  handlers := []

def patience (mode : Mode) (limit : Nat) : Config Nat where
  mode := mode
  host := some fun m _ count => (.error ⟨.targetException, m.name⟩, count)
  policy := some fun _ _ count => (decide (count < limit), count + 1)

theorem poll_failures :
    (∃ a G, ((patience .simulated 4).analyze poll 0).1 = .ok a ∧
        a.failures = [⟨3, ping, .hostError, ⟨.targetException, "ping"⟩⟩,
          ⟨5, beep, .hostError, ⟨.targetException, "beep"⟩⟩] ∧
        (a.failures.map Failure.position).Nodup ∧
        a.frame? 4 = some G ∧ G.top? = some (.unresolved .one)) ∧
      (((patience .simulated 3).analyze poll 0).1 =
          .error (.simulation ⟨5, beep, .hostError, ⟨.targetException, "beep"⟩⟩) ∧
        ∃ before seed args answer frames,
          (patience .simulated 3).history poll 0 =
            before ++ [.called beep args answer, .checked frames false] ∧
          frames = ((patience .simulated 3).solved poll poll.edgeGraph seed 0).frames ∧
          ∃ g S i callee F, (patience .simulated 3).Visiting poll 0 g S i callee F) ∧
      ∃ a, ((patience .constants 3).analyze poll 0).1 = .ok a ∧
        a.failures = [] := by
  obtain ⟨_, htolerated, _⟩ := (patience .simulated 4).analyze_failures poll 0
  obtain ⟨hrefused, _, hchecked, _⟩ := (patience .simulated 3).analyze_failures poll 0
  obtain ⟨_, _, _, hconstants⟩ :=
    (patience .constants 3).analyze_failures poll 0
  refine ⟨?_, ?_, ?_⟩
  · have hok : ((patience .simulated 4).analyze poll 0).1.map Analysis.failures =
        .ok [⟨3, ping, .hostError, ⟨.targetException, "ping"⟩⟩,
          ⟨5, beep, .hostError, ⟨.targetException, "beep"⟩⟩] := by
      cbv
    obtain ⟨a, ha, hfailures⟩ := Analysis.exists_of_map hok
    obtain ⟨hdistinct, g, _, hall⟩ := htolerated a ha
    obtain ⟨_, _, hresult⟩ := hall ⟨3, ping, .hostError, ⟨.targetException, "ping"⟩⟩
      (by simp [hfailures])
    obtain ⟨G, hG, htop⟩ := hresult .one rfl
    exact ⟨a, G, ha, hfailures, hdistinct, hG, htop⟩
  · have herror : ((patience .simulated 3).analyze poll 0).1 =
        .error (.simulation ⟨5, beep, .hostError, ⟨.targetException, "beep"⟩⟩) := by
      cbv
    obtain ⟨g, seed, hgraph, _, _, _, _, before, args, answer, _, hlast⟩ := hrefused _ herror
    obtain ⟨rfl, _⟩ := Method.graph_ok hgraph
    rcases hlast with ⟨hnone, _⟩ | hlast
    · cases hnone
    · have hsplit := hlast.trans (List.append_cons before _ _)
      obtain ⟨g, S, i, callee, F, _, _, _, _, hvisiting, _⟩ := hchecked _ _ _ _ hsplit
      exact ⟨herror, before, seed, args, answer, _, hlast, rfl, g, S, i, callee, F, hvisiting⟩
  · have hok : ((patience .constants 3).analyze poll 0).1.map Analysis.unreachable =
        .ok [] := by
      cbv
    obtain ⟨a, ha, _⟩ := Analysis.exists_of_map hok
    exact ⟨a, ha, (hconstants rfl).2 a ha⟩

end FrameFlow
