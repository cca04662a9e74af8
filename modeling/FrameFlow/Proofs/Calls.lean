import FrameFlow.Proofs.Remembering

/-!
# Calls of the host

A host is called only with values that are known: those that the call at hand
takes from the stack.  It is not called where the source has already settled
the result, and never without simulation.
-/

namespace FrameFlow

variable {σ : Type}

/-! ## Arguments -/

namespace Frame

def arguments (F : Frame) (callee : MethodRef) : List Value :=
  (F.stack.take callee.type.params.length).reverse

theorem stack_of_popWidths {F G : Frame} {ws : List Width} {vs : List Value}
    (h : F.popWidths ws = .ok (vs, G)) :
    F.stack = vs.reverse ++ G.stack ∧ vs.map Value.width = ws := by
  induction ws generalizing vs G with
  | nil =>
      cases h
      simp
  | cons w ws ih =>
      simp only [popWidths] at h
      cases hpop : F.popWidths ws with
      | error e => simp [hpop] at h
      | ok x =>
          simp only [hpop] at h
          cases hlast : x.2.popWidth w with
          | error e => simp [hlast] at h
          | ok y =>
              simp only [hlast, Except.ok.injEq, Prod.mk.injEq] at h
              obtain ⟨rfl, rfl⟩ := h
              obtain ⟨hstack, hwidths⟩ := ih hpop
              obtain ⟨rest, htop, hwidth, hrest⟩ := popWidth_ok_iff.1 hlast
              simp [hstack, hwidths, htop, hwidth, hrest]

theorem arguments_of_popWidths {F G : Frame} {callee : MethodRef} {vs : List Value}
    (h : F.popWidths callee.paramWidths = .ok (vs, G)) :
    F.arguments callee = vs ∧ vs.map Value.width = callee.type.params.map FieldType.width := by
  obtain ⟨hstack, hwidths⟩ := stack_of_popWidths h
  have hlength : callee.type.params.length = vs.reverse.length := by
    have := congrArg List.length hwidths
    simpa [MethodRef.paramWidths] using this.symm
  constructor
  · rw [arguments, hstack, hlength, List.take_left, List.reverse_reverse]
  · exact hwidths

end Frame

private theorem Value.map_host? {vs : List Value} {hs : List HostValue}
    (h : hostArguments? vs = some hs) : vs.map host? = hs.map some := by
  induction vs generalizing hs with
  | nil =>
      cases h
      rfl
  | cons v vs ih =>
      simp only [hostArguments?] at h
      cases hv : v.host? with
      | none => simp [hv] at h
      | some x =>
          cases hvs : hostArguments? vs with
          | none => simp [hv, hvs] at h
          | some xs =>
              simp only [hv, hvs, Option.some.injEq] at h
              subst h
              simp [hv, ih hvs]

private theorem eq_unresolved_of_isOpen {result : Option Value} (h : isOpen result = true) :
    ∃ w, result = some (.unresolved w) := by
  match result with
  | some (.unresolved w) => exact ⟨w, rfl⟩

/-! ## The moment of a call -/

namespace Config

/--
All that is true when the static call of `callee` with entry frame `F` calls the
host, where `asked` is what the visit has asked before.
-/
structure CallsHost (cfg : Config σ) (callee : MethodRef) (F : Frame) (args : List HostValue)
    (asked : List Event) : Prop where
  mode : cfg.mode = .simulated
  widths : (F.arguments callee).map Value.width = callee.type.params.map FieldType.width
  concrete : ∀ v ∈ F.arguments callee, v.isConcrete = true
  converted : (F.arguments callee).map Value.host? = args.map some
  unsettled : (cfg.calls = none ∧ asked = []) ∨
    ∃ answer w, asked = [.consulted callee (F.arguments callee) answer] ∧
      callee.shapedResult answer = some (.unresolved w)

private theorem Simulates.callsHost {cfg : Config σ} {callee : MethodRef} {F G : Frame}
    {values : List Value} {args : List HostValue} {asked : List Event} {result : Option Value}
    (hpop : F.popWidths callee.paramWidths = .ok (values, G))
    (hasked : cfg.Consults callee values asked result)
    (h : cfg.Simulates values result args) : cfg.CallsHost callee F args asked := by
  obtain ⟨hvalues, hwidths⟩ := Frame.arguments_of_popWidths hpop
  have hconverted := Value.map_host? h.args
  rw [← hvalues] at hwidths hconverted
  refine ⟨h.mode, hwidths, ?_, hconverted, ?_⟩
  · intro v hv
    have hmem : v.host? ∈ args.map some := hconverted ▸ List.mem_map_of_mem hv
    obtain ⟨x, _, hx⟩ := List.mem_map.1 hmem
    simp [Value.isConcrete, ← hx]
  · cases hasked with
    | absent hnone => exact .inl ⟨hnone, rfl⟩
    | asked world hsome =>
        have hopen := h.isOpen.resolve_left (by simp [hsome])
        obtain ⟨w, hw⟩ := eq_unresolved_of_isOpen hopen
        exact .inr ⟨_, w, by rw [hvalues], hw⟩

theorem history_called {cfg : Config σ} {m : Method} {start : σ} {before after : List Event}
    {callee : MethodRef} {args : List HostValue} {answer : Answer}
    (h : cfg.history m start = before ++ .called callee args answer :: after) :
    ∃ g S i F asked, cfg.Visiting m start g S i callee F ∧ before = S.world.events ++ asked ∧
      cfg.CallsHost callee F args asked := by
  obtain ⟨g, S, i, _, F, values, asked, back, hvisiting, ⟨G, hpop⟩, hbefore, hlogs⟩ :=
    history_visiting h
  obtain ⟨rfl, result, hasked, hsimulates⟩ := hlogs.called rfl
  exact ⟨g, S, i, F, asked, hvisiting, hbefore, hsimulates.callsHost hpop hasked⟩

end Config

/-! ## Set-ups -/

namespace Setup

def received (s : Setup σ) (m : Method) (start : Memo σ) : List Event :=
  (s.watched.config.analyze m start.watched).2.world.events

private theorem tracks_analyze (s : Setup σ) (m : Method) (start : Memo σ) :
    Agrees Tracks (s.config.watched.analyze m ⟨start, []⟩)
      (s.watched.config.analyze m start.watched) :=
  s.tracks.analyze m ⟨rfl, .refl _⟩

/--
The host is called only while a reachable static call is visited, with the
values that this call takes from the stack, all of them known, and only if
nothing else has settled the result.  What reaches it past a memo is among
these calls.
-/
theorem received_called (s : Setup σ) (m : Method) (start : Memo σ) :
    (s.watched.config.analyze m start.watched).1 = (s.config.analyze m start).1 ∧
      (s.received m start).Sublist (s.config.history m start) ∧
      (∀ before callee args answer after,
        s.config.history m start = before ++ .called callee args answer :: after →
          ∃ g S i F asked, s.config.Moment m start g (S.inWorld S.world.world) ∧
            s.config.Visiting m start g S i callee F ∧ g.Reachable i ∧
            before = S.world.events ++ asked ∧ s.config.CallsHost callee F args asked) ∧
      (s.mode = .constants → Event.calls (s.config.history m start) = []) := by
  obtain ⟨hsame, htracks⟩ := s.tracks_analyze m start
  refine ⟨hsame.symm.trans (s.config.watched_analyze m start), htracks.events, ?_, ?_⟩
  · intro before callee args answer after h
    obtain ⟨g, S, i, F, asked, hvisiting, hbefore, hcalls⟩ := Config.history_called h
    exact ⟨g, S, i, F, asked, hvisiting.unwatched, hvisiting, hvisiting.reachable, hbefore, hcalls⟩
  · intro hmode
    rw [List.eq_nil_iff_forall_not_mem]
    intro x hx
    obtain ⟨e, he, hcall⟩ := List.mem_filterMap.1 hx
    obtain ⟨before, after, hsplit⟩ := List.append_of_mem he
    cases e with
    | called callee args answer =>
        obtain ⟨_, _, _, _, _, _, _, hcalls⟩ := Config.history_called hsplit
        exact absurd (hmode.symm.trans hcalls.mode) (by decide)
    | consulted _ _ _ => cases hcall
    | checked _ _ => cases hcall

end Setup

def price : MethodRef :=
  ⟨"Shop", "price", ⟨[.object "java/lang/String", .base .double], some (.base .int)⟩⟩

def invoice : Method where
  owner := "Shop"
  name := "invoice"
  type := ⟨[.base .int], some (.base .int)⟩
  access := .publicStatic
  maxLocals := 1
  maxStack := some 4
  code := #[.load .int 0, .const (.string "tea"), .const (.double 0x3FF8000000000000),
    .invoke .static price, .binary .int .add, .ret (some .int)]
  handlers := []

/-- The source has an answer of the wrong width, which settles nothing. -/
def pricing (mode : Mode) : Setup Nat where
  mode := mode
  calls := some (Rules.callSource ⟨[("price", .value (.const (.long 7)))], none⟩)
  host := some fun _ _ count => (.ok (some (.const (.int 3))), count + 1)

theorem invoice_called :
    (∃ g S i F asked, (pricing .simulated).config.Visiting invoice (.fresh 0) g S i price F ∧
        (pricing .simulated).config.CallsHost price F
          [.const (.string "tea"), .const (.double 0x3FF8000000000000)] asked) ∧
      Event.calls ((pricing .simulated).received invoice (.fresh 0)) =
        [((price, [.const (.string "tea"), .const (.double 0x3FF8000000000000)]),
          .ok (some (.const (.int 3))))] ∧
      Event.calls ((pricing .constants).config.history invoice (.fresh 0)) = [] := by
  have hhistory : (pricing .simulated).config.history invoice (.fresh 0) =
      [.consulted price [.const (.string "tea"), .const (.double 0x3FF8000000000000)]
        (some (.const (.long 7)))] ++
      .called price [.const (.string "tea"), .const (.double 0x3FF8000000000000)]
        (.ok (some (.const (.int 3)))) :: [] := by
    cbv
  obtain ⟨_, _, hcalled, _⟩ := (pricing .simulated).received_called invoice (.fresh 0)
  obtain ⟨g, S, i, F, asked, _, hvisiting, _, _, hcalls⟩ := hcalled _ _ _ _ _ hhistory
  obtain ⟨_, _, _, hnever⟩ := (pricing .constants).received_called invoice (.fresh 0)
  refine ⟨⟨g, S, i, F, asked, hvisiting, hcalls⟩, ?_, hnever rfl⟩
  cbv

end FrameFlow
