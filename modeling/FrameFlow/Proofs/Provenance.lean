import FrameFlow.Proofs.Calls

/-!
# Where host objects come from

With tables as sources, an object of the host gets into a frame only as the
answer to a call.  From there instructions, handlers and merges hand it on, and
none of them makes up another one.  So each object in a frame has been answered
before, and so has each object that is passed to the host.
-/

namespace FrameFlow

variable {σ : Type}

/-! ## Traced values -/

/-- A value behind the host is an object that a call has been answered with. -/
def Value.Traced (events : List Event) : Value → Prop
  | sim (.object name handle) =>
      ∃ m args, .called m args (.ok (some (.object name handle))) ∈ events
  | sim (.const _) => False
  | unresolved _ | const _ | ref _ => True

def Frame.Traced (events : List Event) (F : Frame) : Prop :=
  ∀ v ∈ F.values, v.Traced events

namespace Value

variable {events : List Event} {a b : Value}

theorem Native.traced (h : a.Native) : a.Traced events := by
  cases a with
  | sim v => exact h.elim
  | unresolved _ => trivial
  | const _ => trivial
  | ref _ => trivial

private theorem Traced.plain (h : a.Traced events) : a.Plain := by
  match a with
  | sim (.const _) => exact h.elim
  | sim (.object _ _) => trivial
  | unresolved _ => trivial
  | const _ => trivial
  | ref _ => trivial

private theorem Traced.mono {events' : List Event} (h : a.Traced events) (hsub : events ⊆ events') :
    a.Traced events' := by
  match a with
  | sim (.const _) => exact h.elim
  | sim (.object _ _) =>
      obtain ⟨m, args, hmem⟩ := h
      exact ⟨m, args, hsub hmem⟩
  | unresolved _ => trivial
  | const _ => trivial
  | ref _ => trivial

private theorem Traced.native (h : a.Traced events)
    (hnone : ∀ m args answer, .called m args answer ∉ events) : a.Native := by
  match a with
  | sim (.const _) => exact h.elim
  | sim (.object _ _) =>
      obtain ⟨m, args, hmem⟩ := h
      exact absurd hmem (hnone m args _)
  | unresolved _ => trivial
  | const _ => trivial
  | ref _ => trivial

private theorem Traced.lub (h : a.Traced events) : (a.lub b).Traced events := by
  rcases lub_cases a b with hsame | htop | ⟨c, _, hconst⟩
  · rw [hsame]
    exact h
  · rw [htop]
    trivial
  · rw [hconst]
    trivial

def TracedBelow (events : List Event) (a b : Value) : Prop :=
  a.Traced events ∧ a ≤ b

private theorem Traced.below (h : a.Traced events) : TracedBelow events a a :=
  ⟨h, le_refl a⟩

private theorem TracedBelow.refines (h : TracedBelow events a b) : a.Refines b :=
  ⟨h.1.plain, h.2⟩

theorem tracedBelow_respected : Respected (TracedBelow events) where
  width h := width_eq_of_le h.2
  lub ha hb := ⟨ha.1.lub, lub_le ha.2 hb.2⟩
  above h hle := ⟨h.1, le_trans h.2 hle⟩
  unresolved _ := Traced.below trivial
  const _ := Traced.below trivial
  ref _ := Traced.below trivial
  fold₁ hf h := ⟨(native_ofFold _ _).traced, (refines_fold₁ hf h.refines).2⟩
  fold₂ hf h h' := ⟨(native_ofFold _ _).traced, (refines_fold₂ hf h.refines h'.refines).2⟩
  instanceTest className h :=
    ⟨(native_instanceTest _ className).traced, (refines_instanceTest className h.refines).2⟩

end Value

/-! ## Traced frames -/

namespace Frame

variable {events : List Event} {F G H : Frame}

theorem mem_values {v : Value} :
    v ∈ F.values ↔ v ∈ F.stack ∨ ∃ k : Nat, F.locals[k]? = some (some v) := by
  have hlocals : v ∈ F.locals.filterMap (fun slot => slot) ↔ some v ∈ F.locals := by simp
  rw [values, List.mem_append, hlocals, List.mem_iff_getElem? (l := F.locals)]

private theorem Traced.mono {events' : List Event} (h : F.Traced events) (hsub : events ⊆ events') :
    F.Traced events' :=
  fun v hv => (h v hv).mono hsub

private theorem Traced.rel (h : F.Traced events) (hle : F ≤ G) :
    Rel (Value.TracedBelow events) F G where
  toAlike := hle.toAlike
  locals k b hb := by
    obtain ⟨a, ha, hab⟩ := hle.locals k b hb
    exact ⟨a, ha, h a (mem_values.2 (.inr ⟨k, ha⟩)), hab⟩
  stack := (List.forall₂_and_left _ _).2 ⟨fun a ha => h a (mem_values.2 (.inl ha)), hle.stack⟩

theorem Rel.traced (h : Rel (Value.TracedBelow events) F F) : F.Traced events := by
  intro v hv
  rcases mem_values.1 hv with hstack | ⟨k, hk⟩
  · exact ((List.forall₂_and_left _ _).1 h.stack).1 v hstack
  · obtain ⟨a, ha, hav⟩ := h.locals k v hk
    cases ha.symm.trans hk
    exact hav.1

private theorem traced_iff_rel : F.Traced events ↔ Rel (Value.TracedBelow events) F F :=
  ⟨fun h => h.rel (le_refl F), Rel.traced⟩

private theorem traced_of_follows {f : Frame → Except FrameError Frame}
    (hf : Rel (Value.TracedBelow events) F F →
      Follows (Rel (Value.TracedBelow events)) (f F) (f F))
    (hF : F.Traced events) (h : f F = .ok H) : H.Traced events := by
  obtain ⟨H', hH', hrel⟩ := hf (traced_iff_rel.1 hF) H h
  cases hH'.symm.trans h
  exact hrel.traced

private theorem Traced.merge {changed : Bool} (hFG : Alike F G) (hF : F.Traced events)
    (hG : G.Traced events) (h : F.merge G = .ok (H, changed)) : H.Traced events := by
  obtain ⟨hleF, hleG⟩ := le_merge hFG h
  obtain ⟨H', _, hmerge, hrel⟩ :=
    merge_rel Value.tracedBelow_respected.toJoinStable (hF.rel hleF) (hG.rel hleG)
  cases h.symm.trans hmerge
  exact hrel.traced

theorem Traced.push {v : Value} (hF : F.Traced events) (hv : v.Traced events)
    (h : F.push v = .ok H) : H.Traced events :=
  traced_of_follows (f := fun F => F.push v)
    (fun hrel => push_follows Value.tracedBelow_respected.toJoinStable hrel hv.below) hF h

private theorem Traced.pushResult {result : Option Value} (hF : F.Traced events)
    (hresult : ∀ v, result = some v → v.Traced events) (h : F.pushResult result = .ok H) :
    H.Traced events := by
  cases result with
  | none =>
      cases h
      exact hF
  | some v => exact hF.push (hresult v rfl) h

private theorem Traced.popWidths {ws : List Width} {vs : List Value} (hF : F.Traced events)
    (h : F.popWidths ws = .ok (vs, G)) : G.Traced events := by
  obtain ⟨x, hx, _, hrel⟩ := Value.tracedBelow_respected.popWidths_follows
    (traced_iff_rel.1 hF) ws (vs, G) h
  cases hx.symm.trans h
  exact hrel.traced

private theorem Traced.handlerFrame {catchClass : Option String} (hF : F.Traced events)
    (h : Run.handlerFrame F catchClass = .ok H) : H.Traced events := by
  have hclear : F.clearStack.Traced events := by
    intro v hv
    rcases mem_values.1 hv with hstack | hlocal
    · cases hstack
    · exact hF v (mem_values.2 (.inr hlocal))
  exact hclear.push (v := .ref _) trivial h

end Frame

/-! ## Answers -/

private theorem Answer.traced_accept {position : Nat} {m : MethodRef} {args : List HostValue}
    {answer : Answer} {v : Value} {events : List Event}
    (h : answer.accept position m = .ok (some v)) (hmem : .called m args answer ∈ events) :
    v.Traced events := by
  unfold Answer.accept at h
  split at h
  · cases h
  · rename_i value
    split at h
    · cases h
    · simp only [Except.ok.injEq] at h
      obtain ⟨u, rfl, rfl⟩ := Option.map_eq_some_iff.1 h
      cases u with
      | const c => trivial
      | object name handle => exact ⟨m, args, hmem⟩

namespace Config

variable {cfg : Config σ}

private theorem Tabled.native_staticField (hcfg : cfg.Tabled) (f : FieldRef) (w : Watched σ) :
    (cfg.watched.staticField f w).1.Native := by
  rcases hcfg.fields with hnone | ⟨known, hknown⟩
  · simp only [staticField, watched, hnone, Option.map_none]
    trivial
  · simp only [staticField, watched, hknown, Option.map_some]
    exact (known.native_get f).shapedTo _

private theorem Tabled.native_consults (hcfg : cfg.Tabled) {m : MethodRef} {args : List Value}
    {asked : List Event} {result : Option Value} (h : cfg.Consults m args asked result)
    {v : Value} (hv : result = some v) : v.Native := by
  cases h with
  | absent _ => exact MethodRef.native_unresolvedResult hv
  | asked world hsome =>
      rcases hcfg.calls with hnone | ⟨methods, hmethods⟩
      · cases hnone.symm.trans hsome
      · cases hmethods.symm.trans hsome
        exact MethodRef.native_shapedResult (fun _ => PureMethods.native_call) hv

/-- Of a call, only the answer of the host is an object behind it. -/
theorem Tabled.traced_asks (hcfg : cfg.Tabled) {position : Nat} {m : MethodRef}
    {args : List Value} {events : List Event} {outcome : Except Failure (Option Value)}
    (h : cfg.Asks position m args events outcome) {v : Value} (hv : outcome = .ok (some v)) :
    v.Traced events := by
  cases h with
  | settled hasked => exact (hcfg.native_consults hasked (Except.ok.inj hv)).traced
  | @simulated asked _ hostArgs answer _ _ =>
      have hmem : .called m hostArgs answer ∈ asked ++ [.called m hostArgs answer] := by simp
      exact Answer.traced_accept hv hmem

private theorem Tabled.traced_callResult (hcfg : cfg.Tabled) (position : Nat) (m : MethodRef)
    (args : List Value) (w : Watched σ) {v : Value}
    (h : cfg.watched.callResult w position m args = some v) :
    v.Traced (cfg.watched.staticCall position m args w).2.events := by
  obtain ⟨events, hevents, hasks⟩ := cfg.staticCall_asks position m args w
  rw [hevents]
  unfold callResult at h
  split at h
  · rename_i result hresult
    subst h
    exact (hcfg.traced_asks hasks hresult).mono (List.subset_append_right _ _)
  · exact (MethodRef.native_unresolvedResult h).traced

private theorem Tabled.traced_onward (hcfg : cfg.Tabled) {position : Nat} {insn : Insn Nat}
    {F H : Frame} {w : Watched σ} (hF : F.Traced w.events)
    (h : cfg.watched.onward w position insn F = .ok H) :
    H.Traced (cfg.watched.transfer position insn F w).2.events := by
  have hF' := hF.mono (cfg.events_subset_transfer position insn F w)
  rcases asks_cases insn with ⟨f, rfl⟩ | ⟨m, rfl⟩ | ⟨hfield, hcall⟩
  · rw [onward_getStatic] at h
    exact hF'.push (hcfg.native_staticField f w).traced h
  · rw [onward_invokeStatic] at h
    cases hpop : F.popWidths m.paramWidths with
    | error e =>
        rw [hpop] at h
        cases h
    | ok x =>
        obtain ⟨args, G⟩ := x
        rw [hpop] at h
        refine (hF'.popWidths hpop).pushResult (fun v hv => ?_) h
        rw [transfer_invokeStatic_world _ _ _ hpop]
        exact hcfg.traced_callResult position m args w hv
  · rw [onward_eq_effect _ _ _ _ hfield hcall] at h
    exact Frame.traced_of_follows (f := insn.effect)
      (fun hrel => Value.tracedBelow_respected.effect_follows hrel insn) hF' h

end Config

/-! ## One visit -/

namespace Run

/-- The frames there are in a visit of `i`: old ones, new ones, and what they merge to. -/
inductive Occurs (p : Problem σ) (S : Run σ) (i : Nat) : Frame → Prop
  | held {j : Nat} {F : Frame} : S.frames[j]? = some (some F) → Occurs p S i F
  | thrown {F H : Frame} {catchClass : Option String} : S.frames[i]? = some (some F) →
      handlerFrame F catchClass = .ok H → Occurs p S i H
  | passed {F H : Frame} {insn : Insn Nat} : S.frames[i]? = some (some F) →
      p.method.code[i]? = some insn → ((S.taken i).offerHandlers p i F).stopped = none →
      p.config.onward S.world i insn F = .ok H → Occurs p S i H
  | merged {F G H : Frame} {changed : Bool} : Occurs p S i F → Occurs p S i G →
      F.merge G = .ok (H, changed) → Occurs p S i H

section

variable {p : Problem σ} {P : Frame → Prop}
  (hmerge : ∀ {F G H changed}, P F → P G → F.merge G = .ok (H, changed) → P H)

include hmerge

theorem AllFrames.offerHandlers {S : Run σ} (h : AllFrames P S) {position : Nat} {F : Frame}
    (hF : ∀ {catchClass H}, handlerFrame F catchClass = .ok H → P H) :
    AllFrames P (S.offerHandlers p position F) := by
  unfold Run.offerHandlers
  induction p.graph.thrownEdges position generalizing S with
  | nil => exact h
  | cons e edges ih =>
      apply ih
      unfold offerHandler
      split
      · exact h
      · split
        · split
          · exact h
          · rename_i hpush
            exact h.offer hmerge (hF hpush)
        all_goals exact h

private theorem AllFrames.finish {S : Run σ} (h : AllFrames P S) {position : Nat}
    {result : Except FrameError Frame} (hresult : ∀ H, result = .ok H → P H) :
    AllFrames P (S.finish p position result) := by
  cases result with
  | error cause => exact h
  | ok H =>
      unfold Run.finish offerAll
      induction p.graph.normalEdges position generalizing S with
      | nil => exact h
      | cons e edges ih => exact ih (h.offer hmerge (hresult H rfl))

end

private theorem pick_occurs (p : Problem σ) (S : Run σ) (i : Nat) :
    AllFrames (Occurs p S i) (S.pick p i) := by
  have hold : AllFrames (Occurs p S i) (S.taken i) :=
    fun _ _ hF => .held (S := S) hF
  rcases visit_cases (p := p) (S.taken i) i with hsame | ⟨F, insn, hF, hinsn, hvisit⟩
  · rw [pick, hsame]
    exact hold
  · have hhandlers : AllFrames (Occurs p S i) ((S.taken i).offerHandlers p i F) :=
      hold.offerHandlers .merged (.thrown hF)
    rw [pick, hvisit]
    cases hstopped : ((S.taken i).offerHandlers p i F).stopped with
    | some e =>
        rw [carryOut_of_stopped hstopped]
        exact hhandlers
    | none =>
        have hpassed (H : Frame) (h : p.config.onward S.world i insn F = .ok H) :
            Occurs p S i H := .passed hF hinsn hstopped h
        rcases carryOut_cases (p := p) hstopped i insn F with ⟨_, heq⟩ | ⟨f, hfailed, heq⟩
        · rw [heq, offerHandlers_world]
          refine AllFrames.finish .merged ?_ hpassed
          exact hhandlers
        · rw [offerHandlers_world] at hfailed
          rw [heq]
          rcases fail_cases (p := p) _ i insn F f with ⟨_, hstop⟩ | ⟨_, hgo⟩
          · rw [hstop]
            exact hhandlers
          · rw [hgo, ← Config.onward_of_failed hfailed]
            refine AllFrames.finish .merged ?_ hpassed
            refine AllFrames.quiet (record_quiet _ f) ?_
            exact hhandlers

variable {p : Problem σ} {S : Run (Watched σ)}

private theorem events_subset_tolerates : S.world.events ⊆ (S.tolerates p.watched).2.events := by
  rcases tolerates_events (p := p) S with ⟨_, hsame⟩ | hchecked
  · rw [hsame]
    exact List.Subset.refl _
  · rw [hchecked]
    exact List.subset_append_left _ _

private theorem transfer_events_subset {i : Nat} {F : Frame} {insn : Insn Nat}
    (hF : S.frames[i]? = some (some F)) (hinsn : p.method.code[i]? = some insn)
    (hstopped : ((S.taken i).offerHandlers p.watched i F).stopped = none) :
    (p.config.watched.transfer i insn F S.world).2.events ⊆
      (S.pick p.watched i).world.events := by
  have hpick : S.pick p.watched i =
      ((S.taken i).offerHandlers p.watched i F).carryOut p.watched i insn F := by
    have hF' : (S.taken i).frames[i]? = some (some F) := hF
    have hinsn' : p.watched.method.code[i]? = some insn := hinsn
    simp only [pick, visit, hF', hinsn']
  have hcases := carryOut_cases (p := p.watched) hstopped i insn F
  simp only [offerHandlers_world] at hcases
  rw [hpick]
  rcases hcases with ⟨_, heq⟩ | ⟨f, _, heq⟩
  · rw [heq, finish_world]
    exact List.Subset.refl _
  · rw [heq, fail_world]
    refine List.Subset.trans ?_ (events_subset_tolerates (p := p))
    exact List.Subset.refl _

private theorem events_subset_pick (i : Nat) :
    S.world.events ⊆ (S.pick p.watched i).world.events := by
  rcases pick_logs (p := p) S i with hsame | ⟨_, _, _, _, _, _, hnew⟩
  · rw [hsame]
    exact List.Subset.refl _
  · rw [hnew]
    exact List.subset_append_left _ _

def Honest (m : Method) (S : Run (Watched σ)) : Prop :=
  AllFrames (fun F => F.Of m ∧ F.Traced S.world.events) S

private theorem Honest.occurs (hp : p.config.Tabled) (h : S.Honest p.method) {i : Nat} {F : Frame}
    (hF : Occurs p.watched S i F) :
    F.Of p.method ∧ F.Traced (S.pick p.watched i).world.events := by
  have hsub := events_subset_pick (p := p) (S := S) i
  have hlasting := Frame.lasting_of p.method
  induction hF with
  | @held j F hF =>
      obtain ⟨hof, htraced⟩ := h j F hF
      exact ⟨hof, htraced.mono hsub⟩
  | @thrown F H catchClass hF hhandler =>
      obtain ⟨hof, htraced⟩ := h i F hF
      exact ⟨hlasting.handlerFrame hof hhandler, (htraced.handlerFrame hhandler).mono hsub⟩
  | @passed F H insn hF hinsn hstopped honward =>
      obtain ⟨hof, htraced⟩ := h i F hF
      constructor
      · exact Config.onward_kept hlasting.toKept _ _ _ _ hof H honward
      · -- the object may be the answer to this very call, which only the visit itself notes
        exact (hp.traced_onward htraced honward).mono (transfer_events_subset hF hinsn hstopped)
  | merged _ _ hmerge ihF ihG =>
      exact ⟨hlasting.merge ihF.1 ihG.1 hmerge, ihF.2.merge (ihF.1.alike ihG.1) ihG.2 hmerge⟩

private theorem Honest.pick (hp : p.config.Tabled) (h : S.Honest p.method) (i : Nat) :
    (S.pick p.watched i).Honest p.method :=
  fun j F hF => h.occurs hp (pick_occurs p.watched S i j F hF)

theorem Leads.honest (hp : p.config.Tabled) {T : Run (Watched σ)} (h : Leads p.watched S T)
    (hS : S.Honest p.method) : T.Honest p.method :=
  h.invariant hS fun _ i _ hT _ _ => hT.pick hp i

def Silent (S : Run (Watched σ)) : Prop :=
  ∀ m args answer, .called m args answer ∉ S.world.events

private theorem Silent.pick (hp : p.config.mode = .constants) (h : S.Silent) (i : Nat) :
    (S.pick p.watched i).Silent := by
  intro m args answer hmem
  rcases pick_logs (p := p) S i with hsame | ⟨_, _, _, _, _, hlogs, hnew⟩
  · rw [hsame] at hmem
    exact h m args answer hmem
  · rw [hnew] at hmem
    rcases List.mem_append.1 hmem with hold | hcalled
    · exact h m args answer hold
    · obtain ⟨_, _, hsplit⟩ := List.append_of_mem hcalled
      obtain ⟨_, _, _, hsimulates⟩ := hlogs.called hsplit
      cases hp.symm.trans hsimulates.mode

end Run

/-! ## Whole analyses -/

namespace Config

variable {cfg : Config σ} {m : Method} {start : σ} {g : FlowGraph} {S : Run (Watched σ)}

theorem moment_of_analyze {start : σ} {a : Analysis} (h : (cfg.analyze m start).1 = .ok a) :
    ∃ g S, cfg.Moment m start g S ∧ S.frames = a.frames := by
  obtain ⟨g, seed, _, hgraph, hseed, houtcome⟩ := analyze_outcome h
  obtain ⟨_, _, _, rfl⟩ := outcome_ok houtcome
  exact ⟨g, _, ⟨hgraph, seed, hseed, Run.solve_passes _ _⟩, rfl⟩

theorem Moment.honest (h : cfg.watched.Moment m ⟨start, []⟩ g S) (hcfg : cfg.Tabled) :
    S.Honest m := by
  obtain ⟨seed, hseed, hpasses⟩ := h.passes
  refine Run.Leads.honest (p := cfg.problem m g) hcfg hpasses.leads ?_
  apply Run.begin_allFrames
  exact ⟨Method.entryFrame_of hseed,
    (Method.entryFrame_rel Value.tracedBelow_respected hseed).traced⟩

theorem Moment.silent (h : cfg.watched.Moment m ⟨start, []⟩ g S)
    (hmode : cfg.mode = .constants) : S.Silent := by
  obtain ⟨seed, _, hpasses⟩ := h.passes
  refine hpasses.leads.invariant ?_ fun _ i _ hT _ _ =>
    Run.Silent.pick (p := cfg.problem m g) hmode hT i
  intro callee args answer hmem
  cases hmem

end Config

private theorem Value.eq_sim_of_host? {v : Value} {name : String} {handle : UInt64}
    (h : v.host? = some (.object name handle)) : v = .sim (.object name handle) := by
  cases v with
  | sim u =>
      cases h
      rfl
  | unresolved _ => cases h
  | const _ => cases h
  | ref _ => cases h

private theorem Config.CallsHost.traced {cfg : Config σ} {callee : MethodRef} {F : Frame}
    {args : List HostValue} {asked events : List Event} (h : cfg.CallsHost callee F args asked)
    (hF : F.Traced events) {name : String} {handle : UInt64} (hmem : .object name handle ∈ args) :
    ∃ m args', .called m args' (.ok (some (.object name handle))) ∈ events := by
  have hhost : some (.object name handle) ∈ (F.arguments callee).map Value.host? := by
    rw [h.converted]
    exact List.mem_map_of_mem hmem
  obtain ⟨v, hv, hobject⟩ := List.mem_map.1 hhost
  have hstack : v ∈ F.stack := List.mem_of_mem_take (List.mem_reverse.1 hv)
  have htraced := hF v (Frame.mem_values.2 (.inl hstack))
  rw [Value.eq_sim_of_host? hobject] at htraced
  exact htraced

namespace Setup

private theorem config_tabled {s : Setup σ} (h : s.toConfig.Tabled) : s.config.Tabled := by
  constructor
  · rcases h.fields with hnone | ⟨known, hknown⟩
    · exact .inl (by simp [config, hnone])
    · exact .inr ⟨known, by rw [config, hknown]; rfl⟩
  · rcases h.calls with hnone | ⟨methods, hmethods⟩
    · exact .inl (by simp [config, hnone])
    · exact .inr ⟨methods, by rw [config, hmethods]; rfl⟩

/--
At every moment of an analysis, what is behind the host in a frame is an object
that a call has been answered with before, and the same holds of all frames
there are in the next visit.  Without simulation they have nothing of the kind.
An object passed to the host has been its answer to an earlier call.
-/
theorem objects_answered (s : Setup σ) (hs : s.toConfig.Tabled) (m : Method) (start : Memo σ) :
    (∀ g T, s.config.Moment m start g T →
      ∃ S, s.config.watched.Moment m ⟨start, []⟩ g S ∧ T = S.inWorld T.world ∧
        T.AllFrames (Frame.Traced S.world.events) ∧
        ∀ i F, Run.Occurs (s.config.watched.problem m g) S i F →
          F.Traced (S.pick (s.config.watched.problem m g) i).world.events ∧
            (s.mode = .constants → ∀ v ∈ F.values, v.Native)) ∧
      ∀ before callee args answer after,
        s.config.history m start = before ++ .called callee args answer :: after →
        ∀ name handle, .object name handle ∈ args →
          ∃ m args', .called m args' (.ok (some (.object name handle))) ∈ before := by
  have htabled := config_tabled hs
  constructor
  · intro g T hT
    have hstart : (⟨start, []⟩ : Watched (Memo σ)).world = start := rfl
    obtain ⟨S, hS, world, _, rfl⟩ := s.config.watched_mirrors.moment_of hstart hT
    have hhonest := hS.honest htabled
    refine ⟨S, hS, rfl, fun i F hF => (hhonest i F hF).2, fun i F hF => ?_⟩
    have htraced := (Run.Honest.occurs (p := s.config.problem m g) htabled hhonest hF).2
    refine ⟨htraced, fun hmode v hv => (htraced v hv).native ?_⟩
    exact (hS.silent hmode).pick (p := s.config.problem m g) hmode i
  · intro before callee args answer after hsplit name handle hmem
    obtain ⟨g, S, i, F, asked, hvisiting, rfl, hcalls⟩ := Config.history_called hsplit
    have hF := (hvisiting.toMoment.honest htabled i F hvisiting.frame).2
    obtain ⟨m', args', hmem'⟩ := hcalls.traced hF hmem
    exact ⟨m', args', List.mem_append_left _ hmem'⟩

end Setup

def acquire : MethodRef := ⟨"Pool", "acquire", ⟨[], some (.object "Pool")⟩⟩

def renew : MethodRef :=
  ⟨"Pool", "renew", ⟨[.object "Pool", .base .int], some (.object "Pool")⟩⟩

def quota : FieldRef := ⟨"Pool", "QUOTA", .base .int⟩

def lease : Method where
  owner := "Pool"
  name := "lease"
  type := ⟨[.base .int], some (.object "Pool")⟩
  access := .publicStatic
  maxLocals := 2
  maxStack := some 2
  code := #[.invoke .static acquire, .store .reference 1, .load .reference 1,
    .field .getStatic quota, .invoke .static renew, .store .reference 1, .load .int 0,
    .branch .ne 2, .load .reference 1, .ret (some .reference)]
  handlers := []

def leasing (mode : Mode) : Setup Nat where
  mode := mode
  fields := some (KnownFields.empty.insert quota (.int 8)).source
  calls := some (PureMethods.empty.insert renew fun _ => none).source
  host := some fun _ _ count => (.ok (some (.object "Pool" (.ofNat count))), count + 1)
  memo := true

private theorem leasing_tabled (mode : Mode) : (leasing mode).toConfig.Tabled :=
  ⟨.inr ⟨_, rfl⟩, .inr ⟨_, rfl⟩⟩

theorem lease_answered :
    (∃ a g S F, ((leasing .simulated).config.analyze lease (.fresh 0)).1 = .ok a ∧
        a.frame? 1 = some F ∧ F.stack = [.sim (.object "Pool" 0)] ∧
        (leasing .simulated).config.watched.Moment lease ⟨.fresh 0, []⟩ g S ∧
        F.Traced S.world.events) ∧
      (∃ before after, (leasing .simulated).config.history lease (.fresh 0) =
          before ++ .called renew [.object "Pool" 0, .const (.int 8)]
            (.ok (some (.object "Pool" 1))) :: after ∧
        ∃ m args, .called m args (.ok (some (.object "Pool" 0))) ∈ before) ∧
      ∃ a, ((leasing .constants).config.analyze lease (.fresh 0)).1 = .ok a ∧
        ∀ i F, a.frame? i = some F → ∀ v ∈ F.values, v.Native := by
  obtain ⟨hmoments, hcalls⟩ :=
    (leasing .simulated).objects_answered (leasing_tabled _) lease (.fresh 0)
  obtain ⟨hconstants, _⟩ :=
    (leasing .constants).objects_answered (leasing_tabled _) lease (.fresh 0)
  refine ⟨?_, ?_, ?_⟩
  · have hframe : ((leasing .simulated).config.analyze lease (.fresh 0)).1.map
        (fun a : Analysis => a.frame? 1) =
        .ok (some ⟨[some (.unresolved .one), none], [.sim (.object "Pool" 0)], some 2⟩) := by
      cbv
    obtain ⟨a, ha, hF⟩ := Analysis.exists_of_map hframe
    obtain ⟨g, T, hT, hframes⟩ := Config.moment_of_analyze ha
    obtain ⟨S, hS, _, htraced, _⟩ := hmoments g T hT
    refine ⟨a, g, S, _, ha, hF, rfl, hS, htraced 1 _ ?_⟩
    rw [hframes]
    exact Analysis.frame?_eq_some.1 hF
  · have hhistory : (leasing .simulated).config.history lease (.fresh 0) =
        [.consulted acquire [] (some (.unresolved .one)),
          .called acquire [] (.ok (some (.object "Pool" 0))),
          .consulted renew [.sim (.object "Pool" 0), .const (.int 8)] (some (.unresolved .one))] ++
        .called renew [.object "Pool" 0, .const (.int 8)] (.ok (some (.object "Pool" 1))) ::
        [.consulted renew [.unresolved .one, .const (.int 8)] (some (.unresolved .one))] := by
      cbv
    exact ⟨_, _, hhistory, hcalls _ _ _ _ _ hhistory "Pool" 0 (by simp)⟩
  · have hok : ((leasing .constants).config.analyze lease (.fresh 0)).1.map Analysis.failures =
        .ok [] := by
      cbv
    obtain ⟨a, ha, _⟩ := Analysis.exists_of_map hok
    obtain ⟨g, T, hT, hframes⟩ := Config.moment_of_analyze ha
    obtain ⟨S, _, hsame, _, hoccurs⟩ := hconstants g T hT
    refine ⟨a, ha, fun i F hF => (hoccurs i F (.held (j := i) ?_)).2 rfl⟩
    have hheld := Analysis.frame?_eq_some.1 hF
    rw [← hframes, hsame] at hheld
    exact hheld

end FrameFlow
