import FrameFlow.Frame.Script
import FrameFlow.Proofs.Provenance
import FrameFlow.Proofs.Tolerated

/-!
# Slots

A local table never changes its size.  A value of two slots in it is followed by
an empty slot, and a stack with a limit stays within it.  This holds of a new
frame and is kept by every operation, also by one that fails and by a merge with
a frame of another size; so it holds after every script, of every frame of a run
and of the frames that a policy is shown.
-/

namespace FrameFlow

variable {σ : Type}

namespace Frame

variable {F G H : Frame}

/-- Values of two slots have both of them, and the stack is within its limit. -/
structure Sound (F : Frame) : Prop where
  paired : ∀ (k : Nat) (v : Value), F.locals[k]? = some (some v) → v.width = .two →
    F.locals[k + 1]? = some none
  fits : ∀ limit, F.limit = some limit → F.stackSlots ≤ limit

/-! ## Operations -/

private theorem empty_sound (localCount : Nat) (limit : Option Nat) :
    (empty localCount limit).Sound where
  paired k v hk := by simp [empty, List.getElem?_replicate] at hk
  fits _ _ := by simp [empty, stackSlots]

private theorem mergeLocals_width {l l' : List (Option Value)} {k : Nat} {c : Value}
    (h : (mergeLocals l l')[k]? = some (some c)) :
    ∃ a, l[k]? = some (some a) ∧ a.width = c.width := by
  rw [mergeLocals_getElem?, Option.map_eq_some_iff] at h
  obtain ⟨slot, hslot, hc⟩ := h
  split at hc
  · exact ⟨c, hslot.trans (congrArg some hc), rfl⟩
  · obtain ⟨a, b, rfl, _, hjoin⟩ := mergeLocal_eq_some.1 hc
    obtain ⟨_, rfl⟩ := join?_eq_some hjoin
    exact ⟨a, hslot, (Value.lub_width a b).symm⟩

private theorem mergeLocals_empty {l : List (Option Value)} (l' : List (Option Value)) {k : Nat}
    (h : l[k]? = some none) : (mergeLocals l l')[k]? = some none := by
  rw [mergeLocals_getElem?, h, Option.map_some]
  split <;> rfl

private theorem Sound.push {v : Value} (h : F.Sound) (hpush : F.push v = .ok H) : H.Sound := by
  have hfits := push_fits hpush
  obtain ⟨_, rfl⟩ := push_ok_iff.1 hpush
  exact ⟨h.paired, hfits⟩

private theorem Sound.pop {v : Value} {rest : List Value} (h : F.Sound)
    (hstack : F.stack = v :: rest) :
    Sound { F with stack := rest } :=
  ⟨h.paired, fun limit hlimit => pop_fits (h.fits limit hlimit) hstack⟩

private theorem Sound.write {k : Nat} {v : Value} (h : F.Sound)
    (hwrite : F.writeLocal k v = .ok H) :
    H.Sound := by
  obtain ⟨hfits, rfl⟩ := writeLocal_ok_iff.1 hwrite
  refine ⟨fun j b hb hwide => ?_, h.fits⟩
  have hk : k < F.locals.length := by
    have := v.width.slots_pos
    omega
  have hempty (hin : j + 1 < F.locals.length)
      (hnone : ∀ c, (placeLocal F.locals k v)[j + 1]? ≠ some (some c)) :
      (placeLocal F.locals k v)[j + 1]? = some none := by
    have hlen : j + 1 < (placeLocal F.locals k v).length := by simpa using hin
    cases hslot : (placeLocal F.locals k v)[j + 1]? with
    | none =>
        rw [List.getElem?_eq_none_iff] at hslot
        omega
    | some slot =>
        cases slot with
        | none => rfl
        | some c => exact absurd hslot (hnone c)
  rcases (placeLocal_present hk).1 hb with ⟨rfl, rfl⟩ | ⟨hj, hold, hbelow, hnext⟩
  · apply hempty
    · simp only [hwide, Width.slots] at hfits
      omega
    · intro c hc
      rcases (placeLocal_present hk).1 hc with ⟨heq, _⟩ | ⟨_, _, _, hfree⟩
      · omega
      · exact hfree ⟨rfl, hwide⟩
  · have hafter := h.paired j b hold hwide
    apply hempty
    · exact (List.getElem?_eq_some_iff.1 hafter).1
    · intro c hc
      rcases (placeLocal_present hk).1 hc with ⟨heq, _⟩ | ⟨_, hheld, _⟩
      · exact hbelow ⟨heq, hwide⟩
      · cases hafter.symm.trans hheld

private theorem Sound.merge {changed : Bool} (h : F.Sound) (hmerge : F.merge G = .ok (H, changed)) :
    H.Sound := by
  have hslots := merge_stackSlots hmerge
  obtain ⟨stack, _, rfl, _⟩ := merge_cases hmerge
  refine ⟨fun k c hc hwide => ?_, fun limit hlimit => ?_⟩
  · obtain ⟨a, ha, hwidth⟩ := mergeLocals_width hc
    exact mergeLocals_empty G.locals (h.paired k a ha (hwidth.trans hwide))
  · rw [hslots]
    exact h.fits limit hlimit

theorem lasting_sound : Lasting Sound where
  push := Sound.push
  pop := Sound.pop
  write := Sound.write
  merge hF _ hmerge := hF.merge hmerge

private theorem Lasting.and {P Q : Frame → Prop} (hP : Lasting P) (hQ : Lasting Q) :
    Lasting fun F => P F ∧ Q F where
  push h hpush := ⟨hP.push h.1 hpush, hQ.push h.2 hpush⟩
  pop h hstack := ⟨hP.pop h.1 hstack, hQ.pop h.2 hstack⟩
  write h hwrite := ⟨hP.write h.1 hwrite, hQ.write h.2 hwrite⟩
  merge hF hG hmerge := ⟨hP.merge hF.1 hG.1 hmerge, hQ.merge hF.2 hG.2 hmerge⟩

private theorem kept_alike (F : Frame) : Kept (Alike F) where
  push h hpush := by
    obtain ⟨_, rfl⟩ := push_ok_iff.1 hpush
    exact ⟨h.limit, h.size⟩
  pop h _ := ⟨h.limit, h.size⟩
  write h hwrite := by
    obtain ⟨_, rfl⟩ := writeLocal_ok_iff.1 hwrite
    exact ⟨h.limit, by simpa using h.size⟩

private theorem merge_alike {changed : Bool} (h : F.merge G = .ok (H, changed)) : Alike F H := by
  obtain ⟨stack, _, rfl, _⟩ := merge_cases h
  exact ⟨rfl, by simp⟩

/-! ## Scripts -/

private theorem Kept.drop {P : Frame → Prop} (hP : Kept P) (h : P F) (count : Nat) :
    P { F with stack := F.stack.drop count } := by
  obtain ⟨locals, stack, limit⟩ := F
  induction count generalizing stack with
  | zero => exact h
  | succ count ih =>
      cases stack with
      | nil => exact h
      | cons v rest => exact ih rest (hP.pop h rfl)

private theorem replace_map {P : Frame → Prop} {α : Type} {x : Except FrameError α}
    {f : α → Reply × Frame} (h : P F) (hx : Ensures (fun a => P (f a).2) x) :
    P (F.replace (x.map f)).2 := by
  cases x with
  | error e => exact h
  | ok a => exact hx a rfl

private theorem Kept.act {P : Frame → Prop} (hP : Kept P)
    (hmerge : ∀ {G H changed}, F.merge G = .ok (H, changed) → P H) (h : P F) (action : Action) :
    P (F.act action).2 := by
  cases action with
  | push v => exact replace_map h (hP.ensures_push h)
  | pop => exact replace_map h (hP.ensures_pop h)
  | popWidth w =>
      unfold Frame.act takeWidth
      cases hstack : F.stack with
      | nil => exact h
      | cons v rest =>
          have hrest := hP.pop h hstack
          by_cases hw : v.width = w <;> simpa [hw] using hrest
  | popMany count =>
      refine replace_map h fun x hx => ?_
      unfold popMany at hx
      split at hx
      · cases hx
        exact hP.drop h count
      · cases hx
  | clear => exact hP.clearStack h
  | peek _ | top | equals _ => exact h
  | read index => exact replace_map h fun _ _ => h
  | write index v => exact replace_map h fun _ hwrite => hP.write h hwrite
  | merge other => exact replace_map h fun _ hmerged => hmerge hmerged

private theorem runStep_cases {frames next : Array Frame} {step : ScriptStep} {reply : Reply}
    {n : Nat} (h : runStep frames step = some (reply, n, next)) :
    (∃ F, next = frames.push F ∧
        ((∃ localCount limit, F = empty localCount limit) ∨ ∃ i : Nat, frames[i]? = some F)) ∨
      ∃ (i : Nat) (F : Frame) (action : Action), frames[i]? = some F ∧
        next = frames.setIfInBounds i (F.act action).2 := by
  have hact {i : Nat} {action : Action} (h : actOn frames i action = some (reply, n, next)) :
      ∃ (i : Nat) (F : Frame) (action : Action), frames[i]? = some F ∧
        next = frames.setIfInBounds i (F.act action).2 := by
    unfold actOn at h
    split at h
    · cases h
    · rename_i F hF
      cases h
      exact ⟨_, F, action, hF, rfl⟩
  cases step with
  | new localCount limit =>
      cases h
      exact .inl ⟨_, rfl, .inl ⟨localCount, limit, rfl⟩⟩
  | clone i =>
      obtain ⟨F, hF, hadd⟩ := Option.map_eq_some_iff.1 h
      cases hadd
      exact .inl ⟨F, rfl, .inr ⟨i, hF⟩⟩
  | act i action => exact .inr (hact h)
  | merge i j =>
      obtain ⟨other, _, hmerge⟩ := Option.bind_eq_some_iff.1 h
      exact .inr (hact hmerge)
  | equals i j =>
      obtain ⟨other, _, hequals⟩ := Option.bind_eq_some_iff.1 h
      exact .inr (hact hequals)

def runScript (frames : Array Frame) : List ScriptStep → Option (Array Frame)
  | [] => some frames
  | step :: steps =>
      match runStep frames step with
      | none => none
      | some (_, _, next) => runScript next steps

/-- Every frame is still there, with a table of its size and its limit, and is sound. -/
def Endures (frames next : Array Frame) : Prop :=
  ∀ (i : Nat) (F : Frame), frames[i]? = some F → ∃ G, next[i]? = some G ∧ Alike F G ∧ G.Sound

def AllSound (frames : Array Frame) : Prop :=
  ∀ (i : Nat) (F : Frame), frames[i]? = some F → F.Sound

private theorem runStep_endures {frames next : Array Frame} {step : ScriptStep} {reply : Reply}
    {n : Nat} (hframes : AllSound frames) (h : runStep frames step = some (reply, n, next)) :
    AllSound next ∧ Endures frames next := by
  rcases runStep_cases h with ⟨F, rfl, horigin⟩ | ⟨i, F, action, hF, rfl⟩
  · have hF : F.Sound := by
      rcases horigin with ⟨localCount, limit, rfl⟩ | ⟨i, hi⟩
      · exact empty_sound localCount limit
      · exact hframes i F hi
    constructor
    · intro j G hG
      rw [Array.getElem?_push] at hG
      split at hG
      · cases hG
        exact hF
      · exact hframes j G hG
    · intro j G hG
      refine ⟨G, ?_, .refl G, hframes j G hG⟩
      have hlt := (Array.getElem?_eq_some_iff.1 hG).1
      rw [Array.getElem?_push, if_neg (Nat.ne_of_lt hlt), hG]
  · have hsound := hframes i F hF
    have hact : (F.act action).2.Sound :=
      lasting_sound.toKept.act (fun hmerge => hsound.merge hmerge) hsound action
    have halike : Alike F (F.act action).2 :=
      (kept_alike F).act (fun hmerge => merge_alike hmerge) (.refl F) action
    have hlt := (Array.getElem?_eq_some_iff.1 hF).1
    constructor
    · intro j G hG
      rw [Array.getElem?_setIfInBounds] at hG
      by_cases hj : i = j
      · rw [if_pos hj, if_pos hlt] at hG
        cases hG
        exact hact
      · rw [if_neg hj] at hG
        exact hframes j G hG
    · intro j G hG
      rw [Array.getElem?_setIfInBounds]
      by_cases hj : i = j
      · subst hj
        cases hF.symm.trans hG
        exact ⟨_, by rw [if_pos rfl, if_pos hlt], halike, hact⟩
      · exact ⟨G, by rw [if_neg hj, hG], .refl G, hframes j G hG⟩

private theorem runScript_endures {frames next : Array Frame} {steps : List ScriptStep}
    (hframes : AllSound frames) (h : runScript frames steps = some next) :
    AllSound next ∧ Endures frames next := by
  induction steps generalizing frames with
  | nil =>
      cases h
      exact ⟨hframes, fun i F hF => ⟨F, hF, .refl F, hframes i F hF⟩⟩
  | cons step steps ih =>
      simp only [runScript] at h
      split at h
      · cases h
      · rename_i middle hstep
        obtain ⟨hmiddle, hfirst⟩ := runStep_endures hframes hstep
        obtain ⟨hnext, hrest⟩ := ih hmiddle h
        refine ⟨hnext, fun i F hF => ?_⟩
        obtain ⟨G, hG, hFG, _⟩ := hfirst i F hF
        obtain ⟨H, hH, hGH, hsound⟩ := hrest i G hG
        exact ⟨H, hH, hFG.trans hGH, hsound⟩

end Frame

/-! ## Runs -/

private theorem Config.transfer_checked {cfg : Config σ} {position : Nat} {insn : Insn Nat}
    {F : Frame} {w : Watched σ} {frames : Array (Option Frame)} {verdict : Bool}
    (h : .checked frames verdict ∈ (cfg.watched.transfer position insn F w).2.events) :
    .checked frames verdict ∈ w.events := by
  rcases cfg.transfer_asks position insn F w with ⟨hsame, _⟩ |
    ⟨_, _, _, _, _, _, _, hasks, hnew, _⟩
  · rwa [hsame] at h
  · rw [hnew] at h
    rcases List.mem_append.1 h with hold | hnote
    · exact hold
    · exact absurd hnote (hasks.not_checked frames verdict)

namespace Run

variable {p : Problem σ} {S : Run (Watched σ)}

private theorem pick_checked {i : Nat} {frames : Array (Option Frame)} {verdict : Bool}
    (h : .checked frames verdict ∈ (S.pick p.watched i).world.events) :
    .checked frames verdict ∈ S.world.events ∨
      ∃ F, S.frames[i]? = some (some F) ∧
        frames = ((S.taken i).offerHandlers p.watched i F).frames := by
  rcases visit_cases (p := p.watched) (S.taken i) i with hsame | ⟨F, insn, hF, _, hvisit⟩
  · rw [pick, hsame] at h
    exact .inl h
  · rw [pick, hvisit] at h
    cases hstopped : ((S.taken i).offerHandlers p.watched i F).stopped with
    | some e =>
        rw [carryOut_of_stopped hstopped, offerHandlers_world] at h
        exact .inl h
    | none =>
        rcases carryOut_cases (p := p.watched) hstopped i insn F with ⟨_, heq⟩ | ⟨f, _, heq⟩
        · rw [heq, finish_world, offerHandlers_world] at h
          exact .inl (Config.transfer_checked h)
        · rw [heq, fail_world] at h
          generalize hU : { (S.taken i).offerHandlers p.watched i F with
            world := (p.watched.config.transfer i insn F
              ((S.taken i).offerHandlers p.watched i F).world).2 } = U at h
          have hold (hmem : .checked frames verdict ∈ U.world.events) :
              .checked frames verdict ∈ S.world.events := by
            rw [← hU, offerHandlers_world] at hmem
            exact Config.transfer_checked hmem
          rcases tolerates_events (p := p) U with ⟨_, hsame⟩ | hchecked
          · rw [hsame] at h
            exact .inl (hold h)
          · rw [hchecked, List.mem_append, List.mem_singleton] at h
            rcases h with hmem | hnew
            · exact .inl (hold hmem)
            · cases hnew
              exact .inr ⟨F, hF, by rw [← hU]⟩

structure Shows (P : Frame → Prop) (S : Run (Watched σ)) : Prop where
  frames : AllFrames P S
  shown : ∀ frames verdict, .checked frames verdict ∈ S.world.events →
    ∀ (i : Nat) (F : Frame), frames[i]? = some (some F) → P F

private theorem Shows.pick {P : Frame → Prop} (hP : Frame.Lasting P) (h : S.Shows P) (i : Nat) :
    (S.pick p.watched i).Shows P where
  frames := h.frames.pick hP i
  shown frames verdict hmem := by
    rcases pick_checked hmem with hold | ⟨F, hF, rfl⟩
    · exact h.shown frames verdict hold
    · have htaken : AllFrames P (S.taken i) := h.frames
      exact htaken.offerHandlers hP.merge fun hhandler =>
        hP.handlerFrame (h.frames i F hF) hhandler

private theorem Occurs.lasting {P : Frame → Prop} (hP : Frame.Lasting P) {S : Run σ} {i : Nat}
    {F : Frame} (h : Occurs p S i F) (hS : AllFrames P S) : P F := by
  induction h with
  | held hF => exact hS _ _ hF
  | thrown hF hhandler => exact hP.handlerFrame (hS _ _ hF) hhandler
  | passed hF _ _ honward =>
      exact Config.onward_kept hP.toKept p.config S.world i _ (hS _ _ hF) _ honward
  | merged _ _ hmerge hF hG => exact hP.merge hF hG hmerge

end Run

namespace Config

variable {cfg : Config σ} {m : Method} {start : σ} {g : FlowGraph} {P : Frame → Prop}

theorem Moment.allFrames {S : Run σ} (h : cfg.Moment m start g S) (hP : Frame.Lasting P)
    (hentry : ∀ seed, m.entryFrame = .ok seed → P seed) : S.AllFrames P := by
  obtain ⟨seed, hseed, hpasses⟩ := h.passes
  exact hpasses.leads.allFrames hP (Run.begin_allFrames (hentry seed hseed) _)

private theorem history_shows (hP : Frame.Lasting P)
    (hentry : ∀ seed, m.entryFrame = .ok seed → P seed)
    {frames : Array (Option Frame)} {verdict : Bool}
    (h : .checked frames verdict ∈ cfg.history m start) (i : Nat) (F : Frame)
    (hF : frames[i]? = some (some F)) : P F := by
  rcases cfg.history_cases m start with hnone | ⟨g, seed, _, hseed, hsolved⟩
  · rw [hnone] at h
    cases h
  · have hbegin : (begin (cfg.problem m g).watched seed ⟨start, []⟩).Shows P :=
      ⟨Run.begin_allFrames (hentry seed hseed) _, fun _ _ hmem => by cases hmem⟩
    have hshows : (cfg.watched.solved m g seed ⟨start, []⟩).Shows P :=
      (Run.solve_passes _ _).leads.invariant hbegin fun _ j _ hT _ _ =>
        Run.Shows.pick (p := cfg.problem m g) hP hT j
    rw [hsolved] at h
    exact hshows.shown frames verdict h i F hF

end Config

private theorem Method.entryFrame_sound {m : Method} {seed : Frame} (h : m.entryFrame = .ok seed) :
    seed.Sound :=
  Frame.lasting_sound.writeLocals (Frame.empty_sound m.maxLocals m.maxStack) h

/-- Scripts may make frames of any sizes and merge them with each other.  A run has
frames also between its steps, while an instruction is carried out. -/
theorem frames_stay_sound :
    (∀ steps later frames next, Frame.runScript #[] steps = some frames →
        Frame.runScript frames later = some next →
          Frame.AllSound frames ∧ Frame.Endures frames next) ∧
      ∀ (cfg : Config σ) (m : Method) (start : σ),
        (∀ g S, cfg.Moment m start g S → ∀ i F, Run.Occurs (cfg.problem m g) S i F →
          F.Of m ∧ F.Sound) ∧
        (∀ a, (cfg.analyze m start).1 = .ok a → ∀ i F, a.frame? i = some F →
          F.Of m ∧ F.Sound) ∧
        ∀ frames verdict, .checked frames verdict ∈ cfg.history m start →
          ∀ (i : Nat) (F : Frame), frames[i]? = some (some F) → F.Of m ∧ F.Sound := by
  constructor
  · intro steps later frames next hsteps hlater
    have hnone : Frame.AllSound #[] := fun i F hF => by simp at hF
    obtain ⟨hframes, _⟩ := Frame.runScript_endures hnone hsteps
    exact ⟨hframes, (Frame.runScript_endures hframes hlater).2⟩
  · intro cfg m start
    have hlasting := (Frame.lasting_of m).and Frame.lasting_sound
    have hentry : ∀ seed, m.entryFrame = .ok seed → seed.Of m ∧ seed.Sound :=
      fun seed hseed => ⟨Method.entryFrame_of hseed, Method.entryFrame_sound hseed⟩
    refine ⟨?_, ?_, ?_⟩
    · intro g S hS i F hF
      exact hF.lasting hlasting (hS.allFrames hlasting hentry)
    · intro a ha i F hF
      obtain ⟨g, S, hS, hframes⟩ := Config.moment_of_analyze ha
      refine hS.allFrames hlasting hentry i F ?_
      rw [hframes]
      exact Analysis.frame?_eq_some.1 hF
    · intro frames verdict h
      exact Config.history_shows hlasting hentry h

def overlaps : List Frame.ScriptStep :=
  [.new 6 (some 3), .act 0 (.write 1 (.unresolved .two)), .act 0 (.write 2 (.const (.long 5))),
    .act 0 (.write 1 (.const (.int 1))), .act 0 (.write 4 (.const (.long 7))),
    .act 0 (.push (.unresolved .two)), .act 0 (.push (.const (.long 0))), .new 3 none,
    .act 1 (.write 1 (.unresolved .two)), .act 1 (.push (.const (.double 0)))]

def slide : Method where
  owner := "Net"
  name := "slide"
  type := ⟨[.base .long], none⟩
  access := .publicStatic
  maxLocals := 3
  maxStack := some 2
  code := #[.load .long 0, .store .long 1, .invoke .static beep, .ret none]
  handlers := []

theorem overlaps_sound :
    (∃ frames next F G, Frame.runScript #[] overlaps = some frames ∧
        Frame.runScript frames [.merge 0 1] = some next ∧ frames[0]? = some F ∧
        F.locals = [none, some (.const (.int 1)), some (.const (.long 5)), none,
          some (.const (.long 7)), none] ∧
        F.Sound ∧ next[0]? = some G ∧
        G.locals = [none, none, none, none, some (.const (.long 7)), none] ∧
        Frame.Alike F G ∧ G.Sound) ∧
      (∃ a F, ((patience .simulated 1).analyze slide 0).1 = .ok a ∧ a.frame? 3 = some F ∧
        F.locals = [none, some (.unresolved .two), none] ∧ F.Of slide ∧ F.Sound) ∧
      ∃ (frames : Array (Option Frame)) (F : Frame),
        .checked frames true ∈ (patience .simulated 1).history slide 0 ∧
        frames[2]? = some (some F) ∧ F.Of slide ∧ F.Sound := by
  obtain ⟨hscripts, hruns⟩ := frames_stay_sound (σ := Nat)
  obtain ⟨_, hanalysis, hshown⟩ := hruns (patience .simulated 1) slide 0
  refine ⟨?_, ?_, ?_⟩
  · have hfirst : Frame.runScript #[] overlaps = some
        #[⟨[none, some (.const (.int 1)), some (.const (.long 5)), none,
            some (.const (.long 7)), none], [.unresolved .two], some 3⟩,
          ⟨[none, some (.unresolved .two), none], [.const (.double 0)], none⟩] := by
      cbv
    have hnext : Frame.runScript
        #[⟨[none, some (.const (.int 1)), some (.const (.long 5)), none,
            some (.const (.long 7)), none], [.unresolved .two], some 3⟩,
          ⟨[none, some (.unresolved .two), none], [.const (.double 0)], none⟩] [.merge 0 1] = some
        #[⟨[none, none, none, none, some (.const (.long 7)), none], [.unresolved .two], some 3⟩,
          ⟨[none, some (.unresolved .two), none], [.const (.double 0)], none⟩] := by
      cbv
    obtain ⟨hsound, hendures⟩ := hscripts _ _ _ _ hfirst hnext
    obtain ⟨G, hG, halike, hsound'⟩ := hendures 0 _ rfl
    cases hG
    exact ⟨_, _, _, _, hfirst, hnext, rfl, rfl, hsound 0 _ rfl, rfl, rfl, halike, hsound'⟩
  · have hframe : ((patience .simulated 1).analyze slide 0).1.map (fun a => a.frame? 3) =
        .ok (some ⟨[none, some (.unresolved .two), none], [], some 2⟩) := by
      cbv
    obtain ⟨a, ha, hF⟩ := Analysis.exists_of_map hframe
    exact ⟨a, _, ha, hF, rfl, hanalysis a ha 3 _ hF⟩
  · have hhistory : (patience .simulated 1).history slide 0 =
        [.called beep [] (.error ⟨.targetException, "beep"⟩),
          .checked #[some ⟨[some (.unresolved .two), none, none], [], some 2⟩,
            some ⟨[some (.unresolved .two), none, none], [.unresolved .two], some 2⟩,
            some ⟨[none, some (.unresolved .two), none], [], some 2⟩, none] true] := by
      cbv
    have hmem := List.mem_of_getElem? (congrArg (·[1]?) hhistory)
    exact ⟨_, _, hmem, rfl, hshown _ _ hmem 2 _ rfl⟩

end FrameFlow
