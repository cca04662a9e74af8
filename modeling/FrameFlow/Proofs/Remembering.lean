import FrameFlow.Proofs.History
import Mathlib.Data.List.Nodup

/-!
# Remembered answers make no difference

A host may change its world and still answer by a function of the call.  Where
the sources and the policy do not see what the host changes, analyses end alike
with and without a memo.

Whatever the host does, a memo passes each call on once: the calls that reach
the host are the entries of the memo, in order, and every call that is made has
the answer of its entry.
-/

namespace FrameFlow

variable {σ α : Type}

/-! ## Answers by a function -/

/--
The host answers by `f`, and what it changes in the world makes no difference to
the sources and the policy.
-/
structure Config.Functional (cfg : Config σ) (f : MethodRef → List HostValue → Answer)
    (Alike : σ → σ → Prop) : Prop where
  alike : Equivalence Alike
  host : ∀ host, cfg.host = some host → ∀ m args world,
    (host m args world).1 = f m args ∧ Alike world (host m args world).2
  fields : ∀ source, cfg.fields = some source → ∀ x, Echoes Alike (source x) (source x)
  calls : ∀ source, cfg.calls = some source → ∀ m args, Echoes Alike (source m args) (source m args)
  policy : ∀ policy, cfg.policy = some policy →
    ∀ m frames, Echoes Alike (policy m frames) (policy m frames)

structure Memo.Matches (f : MethodRef → List HostValue → Answer) (Alike : σ → σ → Prop)
    (memo memo' : Memo σ) : Prop where
  world : Alike memo.world memo'.world
  answers : ∀ x ∈ memo.answers, x.2 = f x.1.1 x.1.2

def Setup.withMemo (s : Setup σ) (memo : Bool) : Setup σ :=
  { s with memo := memo }

section

variable {f : MethodRef → List HostValue → Answer} {Alike : σ → σ → Prop}

private theorem Echoes.onWorld {ask : σ → α × σ} (h : Echoes Alike ask ask) :
    Echoes (Memo.Matches f Alike) (onWorld ask) (onWorld ask) := by
  intro memo memo' hmemo
  obtain ⟨hanswer, hworld⟩ := h hmemo.world
  exact ⟨hanswer, hworld, hmemo.answers⟩

private theorem Config.Functional.remembered {cfg : Config σ} (h : cfg.Functional f Alike)
    {host : Host σ} (hhost : cfg.host = some host) (m : MethodRef) (args : List HostValue) :
    Echoes (Memo.Matches f Alike) (host.remembered m args) (host.unremembered m args) := by
  intro memo memo' hmemo
  obtain ⟨hanswer', hworld'⟩ := h.host host hhost m args memo'.world
  unfold Host.remembered
  cases hfind : memo.answers.find? fun entry => entry.1 = (m, args) with
  | some entry =>
      obtain ⟨hentry, hkey⟩ := Memo.find?_answers hfind
      have hanswer := hmemo.answers entry hentry
      rw [hkey] at hanswer
      exact ⟨hanswer.trans hanswer'.symm, h.alike.trans hmemo.world hworld', hmemo.answers⟩
  | none =>
      obtain ⟨hanswer, hworld⟩ := h.host host hhost m args memo.world
      refine ⟨hanswer.trans hanswer'.symm, ?_, ?_⟩
      · exact h.alike.trans (h.alike.symm hworld) (h.alike.trans hmemo.world hworld')
      · intro x hx
        rcases List.mem_append.1 hx with hold | hnew
        · exact hmemo.answers x hold
        · cases List.mem_singleton.1 hnew
          exact hanswer

private theorem Setup.config_mirrors {s : Setup σ} (h : s.toConfig.Functional f Alike) :
    (s.withMemo true).config.Mirrors (Memo.Matches f Alike) (s.withMemo false).config := by
  constructor
  case mode => rfl
  case fields => exact rel_map fun source hsource x => (h.fields source hsource x).onWorld
  case calls =>
    exact rel_map fun source hsource m args => (h.calls source hsource m args).onWorld
  case host => exact rel_map fun host hhost m args => h.remembered hhost m args
  case policy =>
    exact rel_map fun policy hpolicy m frames => (h.policy policy hpolicy m frames).onWorld

end

/-! ## What reaches the host -/

def Event.call? : Event → Option (Call × Answer)
  | called m args answer => some ((m, args), answer)
  | consulted _ _ _ | checked _ _ => none

def Event.calls (events : List Event) : List (Call × Answer) :=
  events.filterMap Event.call?

private theorem Event.calls_append (events events' : List Event) :
    Event.calls (events ++ events') = Event.calls events ++ Event.calls events' :=
  List.filterMap_append

@[simp] theorem Event.calls_called (m : MethodRef) (args : List HostValue) (answer : Answer) :
    Event.calls [.called m args answer] = [((m, args), answer)] :=
  rfl

def Setup.watched (s : Setup σ) : Setup (Watched σ) :=
  ⟨s.toConfig.watched, s.memo⟩

def Memo.watched (memo : Memo σ) : Memo (Watched σ) :=
  ⟨⟨memo.world, []⟩, memo.answers⟩

/-- The one world is watched from outside the memo, the other one from inside. -/
structure Tracks (w : Watched (Memo σ)) (v : Memo (Watched σ)) : Prop where
  world : w.world = ⟨v.world.world, v.answers⟩
  events : v.world.events.Sublist w.events

/-- The entries of the memo are the calls seen inside, and the only answers seen outside. -/
structure Remembers (w : Watched (Memo σ)) (v : Memo (Watched σ)) : Prop extends Tracks w v where
  received : Event.calls v.world.events = v.answers
  distinct : (v.answers.map Prod.fst).Nodup
  answered : ∀ x ∈ Event.calls w.events, x ∈ v.answers

private theorem Setup.watched_mirrors {R : Watched (Memo σ) → Memo (Watched σ) → Prop} (s : Setup σ)
    (hsource : ∀ {α : Type} (note : α → List Event) (ask : σ → α × σ),
      (∀ a, Event.calls (note a) = []) →
        Echoes R (noting note (onWorld ask)) (onWorld (noting note ask)))
    (hhost : ∀ host m args, s.host = some host →
      Echoes R ((if s.memo then host.remembered else host.unremembered).watched m args)
        ((if s.memo then host.watched.remembered else host.watched.unremembered) m args)) :
    s.config.watched.Mirrors R s.watched.config := by
  constructor
  case mode => rfl
  all_goals
    simp only [Setup.config, Setup.watched, Config.watched, Option.map_map, Function.comp_def]
  case fields => exact rel_map fun source _ x => hsource _ (source x) fun _ => rfl
  case calls => exact rel_map fun source _ m args => hsource _ (source m args) fun _ => rfl
  case host => exact rel_map fun host hhost' m args => hhost host m args hhost'
  case policy => exact rel_map fun policy _ m frames => hsource _ (policy m frames) fun _ => rfl

private theorem Tracks.source (note : α → List Event) (ask : σ → α × σ) :
    Echoes Tracks (noting note (onWorld ask)) (onWorld (noting note ask)) := by
  rintro ⟨_, events⟩ v ⟨rfl, hevents⟩
  exact ⟨rfl, rfl, hevents.append_right _⟩

private theorem Tracks.host (host : Host σ) (m : MethodRef) (args : List HostValue) (memo : Bool) :
    Echoes Tracks ((if memo then host.remembered else host.unremembered).watched m args)
      ((if memo then host.watched.remembered else host.watched.unremembered) m args) := by
  rintro ⟨_, events⟩ v ⟨rfl, hevents⟩
  cases memo with
  | false => exact ⟨rfl, rfl, hevents.append_right _⟩
  | true =>
      simp only [if_true, Host.watched, Host.remembered, noting]
      cases v.answers.find? fun entry => entry.1 = (m, args) with
      | some entry => exact ⟨rfl, rfl, hevents.trans (List.sublist_append_left _ _)⟩
      | none => exact ⟨rfl, rfl, hevents.append_right _⟩

private theorem Remembers.source (note : α → List Event) (ask : σ → α × σ)
    (hnote : ∀ a, Event.calls (note a) = []) :
    Echoes Remembers (noting note (onWorld ask)) (onWorld (noting note ask)) := by
  intro w v h
  obtain ⟨hanswer, htracks⟩ := Tracks.source note ask h.toTracks
  have hquiet (events : List Event) (a : α) :
      Event.calls (events ++ note a) = Event.calls events := by
    simp [Event.calls_append, hnote]
  refine ⟨hanswer, htracks, ?_, h.distinct, ?_⟩
  · exact (hquiet _ _).trans h.received
  · intro x hx
    exact h.answered x ((hquiet _ _) ▸ hx)

private theorem Remembers.host (host : Host σ) (m : MethodRef) (args : List HostValue) :
    Echoes Remembers (host.remembered.watched m args) (host.watched.remembered m args) := by
  intro w v h
  obtain ⟨⟨hworld, hevents⟩, hreceived, hdistinct, hanswered⟩ := h
  obtain ⟨memo, events⟩ := w
  subst hworld
  simp only [Host.watched, Host.remembered, noting]
  cases hfind : v.answers.find? fun entry => entry.1 = (m, args) with
  | some entry =>
      obtain ⟨hentry, hkey⟩ := Memo.find?_answers hfind
      refine ⟨rfl, ⟨rfl, hevents.trans (List.sublist_append_left _ _)⟩, hreceived, hdistinct, ?_⟩
      intro x hx
      simp only [Event.calls_append, Event.calls_called, List.mem_append, List.mem_singleton] at hx
      rcases hx with hold | rfl
      · exact hanswered x hold
      · exact hkey ▸ hentry
  | none =>
      have hnew : (m, args) ∉ v.answers.map Prod.fst := by
        intro hmem
        obtain ⟨x, hx, hkey⟩ := List.mem_map.1 hmem
        have hne := List.find?_eq_none.1 hfind x hx
        simp [hkey] at hne
      refine ⟨rfl, ⟨rfl, hevents.append_right _⟩, ?_, ?_, ?_⟩
      · simp [Event.calls_append, hreceived]
      · rw [List.map_append]
        exact hdistinct.append (List.nodup_singleton _) (List.disjoint_singleton.2 hnew)
      · intro x hx
        simp only [Event.calls_append, Event.calls_called, List.mem_append] at hx ⊢
        exact hx.imp_left (hanswered x)

theorem Setup.tracks (s : Setup σ) : s.config.watched.Mirrors Tracks s.watched.config :=
  s.watched_mirrors (fun note ask _ => Tracks.source note ask)
    fun host m args _ => Tracks.host host m args s.memo

private theorem Setup.remembers {s : Setup σ} (h : s.memo = true) :
    s.config.watched.Mirrors Remembers s.watched.config := by
  apply s.watched_mirrors
  · intro α note ask hnote
    exact Remembers.source note ask hnote
  · intro host m args _
    simp only [h, if_true]
    exact Remembers.host host m args

/-! ## Analyses one after another -/

/-- All that the host of a set-up is asked, and its answers, in a row of analyses. -/
def Setup.receivedAll (s : Setup σ) (ms : List Method) (start : Memo σ) : List (Call × Answer) :=
  Event.calls (s.watched.config.analyzeAll ms start.watched).2.world.events

def Setup.calledAll (s : Setup σ) (ms : List Method) (start : Memo σ) : List (Call × Answer) :=
  Event.calls (s.config.watched.analyzeAll ms ⟨start, []⟩).2.events

/--
With a memo a host that answers by a function of the call gives the same analyses.  Any
host is asked once for each call that is made, and each time the call is made it has the
answer given that once.
-/
theorem Setup.analyzeAll_remembered (s : Setup σ) (ms : List Method) (start : σ) :
    (∀ f Alike, s.toConfig.Functional f Alike →
      ((s.withMemo true).config.analyzeAll ms (.fresh start)).1 =
        ((s.withMemo false).config.analyzeAll ms (.fresh start)).1) ∧
      ((s.withMemo true).watched.config.analyzeAll ms (Memo.fresh start).watched).1 =
        ((s.withMemo true).config.analyzeAll ms (.fresh start)).1 ∧
      (((s.withMemo true).receivedAll ms (.fresh start)).map Prod.fst).Nodup ∧
      ∀ x, x ∈ (s.withMemo true).calledAll ms (.fresh start) ↔
        x ∈ (s.withMemo true).receivedAll ms (.fresh start) := by
  constructor
  · intro f Alike h
    have hfresh : Memo.Matches f Alike (.fresh start) (.fresh start) :=
      ⟨h.alike.refl start, by simp [Memo.fresh]⟩
    exact ((Setup.config_mirrors h).analyzeAll ms hfresh).1
  · have hstart : Remembers ⟨.fresh start, []⟩ (Memo.fresh start).watched :=
      ⟨⟨rfl, .refl _⟩, rfl, by simp [Memo.fresh, Memo.watched], by simp [Event.calls]⟩
    have hmemo : (s.withMemo true).memo = true := rfl
    obtain ⟨hsame, h⟩ := (Setup.remembers hmemo).analyzeAll ms hstart
    have hfresh : (⟨.fresh start, []⟩ : Watched (Memo σ)).world = .fresh start := rfl
    obtain ⟨hwatched, _⟩ := (s.withMemo true).config.watched_mirrors.analyzeAll ms hfresh
    simp only [Setup.receivedAll, Setup.calledAll, h.received]
    refine ⟨hsame.symm.trans hwatched, h.distinct, fun x => ⟨h.answered x, fun hx => ?_⟩⟩
    rw [← h.received] at hx
    exact (h.events.filterMap _).subset hx

def sign : MethodRef := ⟨"Zero", "sign", ⟨[.base .float], some (.base .int)⟩⟩

def signs : Method where
  owner := "Zero"
  name := "signs"
  type := ⟨[], none⟩
  access := .publicStatic
  maxLocals := 1
  maxStack := some 1
  code := #[.const (.int 0), .store .int 0, .const (.float 0), .invoke .static sign, .stack .pop,
    .const (.float 0x80000000), .invoke .static sign, .increment 0 1, .branch .ne 2, .ret none]
  handlers := []

def signAnswer (_ : MethodRef) (args : List HostValue) : Answer :=
  if args = [.const (.float 0)] then .ok (some (.const (.int 1)))
  else .error ⟨.targetException, "no sign"⟩

def signing : Setup Nat where
  mode := .simulated
  host := some fun m args count => (signAnswer m args, count + 1)
  policy := some Tolerance.always.policy

private theorem signing_functional : signing.toConfig.Functional signAnswer fun _ _ => True where
  alike := ⟨fun _ => trivial, fun _ => trivial, fun _ _ => trivial⟩
  host _ hhost _ _ _ := by
    cases hhost
    exact ⟨rfl, trivial⟩
  fields _ hsource := by cases hsource
  calls _ hsource := by cases hsource
  policy _ hpolicy _ _ _ _ _ := by
    cases hpolicy
    exact ⟨rfl, trivial⟩

theorem signs_remembered :
    ((signing.withMemo true).config.analyzeAll [signs, signs] (.fresh 0)).1 =
        ((signing.withMemo false).config.analyzeAll [signs, signs] (.fresh 0)).1 ∧
      ((signing.withMemo false).receivedAll [signs, signs] (.fresh 0)).length = 8 ∧
      ((signing.withMemo true).calledAll [signs, signs] (.fresh 0)).length = 8 ∧
      (signing.withMemo true).receivedAll [signs, signs] (.fresh 0) =
        [((sign, [.const (.float 0)]), .ok (some (.const (.int 1)))),
          ((sign, [.const (.float 0x80000000)]), .error ⟨.targetException, "no sign"⟩)] := by
  obtain ⟨hsame, _⟩ := signing.analyzeAll_remembered [signs, signs] 0
  refine ⟨hsame _ _ signing_functional, ?_, ?_, ?_⟩
  · cbv
  · cbv
  · cbv

end FrameFlow
