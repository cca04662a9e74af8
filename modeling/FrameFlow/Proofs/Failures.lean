import FrameFlow.Proofs.Reachable
import FrameFlow.Proofs.Shape

/-!
# How an analysis fails

The local table may be too small, the graph may be faulty, an instruction may not
fit its frame, and a call may fail.  Every such error but the first names an
instruction.  There is one more way to fail: the returned values are joined after
the run, and if two reachable instructions return values of different widths, the
join fails with an error that names no instruction.
-/

namespace FrameFlow

variable {σ : Type}

/-- An error that says what is wrong with the method, and where. -/
inductive Error.Located (m : Method) : Error → Prop
  | malformed (cause : Malformed) :
      m.maxLocals < m.argumentSlots → Located m (.malformed cause)
  | graph (position : Nat) (fault : GraphFault) : Located m (.graph position fault)
  | frame (position : Nat) (cause : FrameError) : Located m (.frame position cause)
  | simulation (failure : Failure) : Located m (.simulation failure)

private theorem Error.Located.position {m : Method} {e : Error} (h : e.Located m) :
    (∃ cause, e = .malformed cause) ∨ e.position?.isSome = true := by
  cases h with
  | malformed cause _ => exact .inl ⟨cause, rfl⟩
  | graph | frame | simulation => exact .inr rfl

private theorem Method.maxLocals_lt {m : Method} {cause : Malformed}
    (h : m.checkLocals = .error cause) :
    m.maxLocals < m.argumentSlots := by
  unfold checkLocals at h
  split at h
  · cases h
  · omega

private theorem Run.Halts.located {p : Problem σ} {e : Error} (h : Halts p e) (m : Method) :
    e.Located m := by
  cases h with
  | frame position cause => exact .frame position cause
  | refused _ _ => exact .simulation _

/-! ## Returned values -/

private theorem Frame.top?_of_dropWidths {F H : Frame} {w : Width} (h : F.dropWidths [w] = .ok H) :
    ∃ v, F.top? = some v ∧ v.width = w := by
  simp only [dropWidths, popWidths] at h
  cases hpop : F.popWidth w with
  | error e => simp [hpop] at h
  | ok x =>
      obtain ⟨rest, hstack, hwidth, _⟩ := popWidth_ok_iff.1 hpop
      exact ⟨x.1, by simp [top?, hstack], hwidth⟩

theorem Closed.top?_of_ret {cfg : Config σ} {I : σ → Prop} {m : Method} {g : FlowGraph}
    {seed : Frame} {X : Nat → Option Frame} (hX : Closed cfg I m g seed X) {i : Nat}
    {kind : Kind} (hinsn : m.code[i]? = some (.ret (some kind))) {F : Frame}
    (hF : X i = some F) : ∃ v, F.top? = some v ∧ v.width = kind.width := by
  obtain ⟨world, H, _, hH, _⟩ := hX.normal i _ F hinsn hF
  rw [Config.onward_eq_effect cfg world i F (by simp) (by simp)] at hH
  exact Frame.top?_of_dropWidths hH

def Method.ReturnsAlike (m : Method) (g : FlowGraph) : Prop :=
  ∀ (i j : Nat) (kind kind' : Kind), g.Reachable i → g.Reachable j →
    m.code[i]? = some (.ret (some kind)) → m.code[j]? = some (.ret (some kind')) →
    kind.width = kind'.width

namespace Config

section

variable {m : Method} {g : FlowGraph} {seed : Frame} (hgraph : m.graph = .ok g)
  (hseed : m.entryFrame = .ok seed) (cfg : Config σ) (start : σ)
  (hstopped : (cfg.solved m g seed start).stopped = none)

include hgraph hseed hstopped

theorem solved_returned_iff {w : Width} :
    (∃ v ∈ Method.returned m.code.toList (cfg.solved m g seed start).frames.toList,
      v.width = w) ↔
      ∃ i kind, g.Reachable i ∧ m.code[i]? = some (.ret (some kind)) ∧ kind.width = w := by
  have hclosed := solved_closed hgraph hseed cfg start hstopped
  have hframed := solved_framed_iff hgraph hseed cfg start hstopped
  constructor
  · rintro ⟨v, hv, rfl⟩
    obtain ⟨i, kind, F, hinsn, hF, htop⟩ := Method.mem_returned.1 hv
    rw [Array.getElem?_toList] at hinsn hF
    rw [← Run.frame?_eq_some] at hF
    obtain ⟨v', htop', hwidth⟩ := hclosed.top?_of_ret hinsn hF
    cases htop.symm.trans htop'
    exact ⟨i, kind, (hframed i).1 (by simp [hF]), hinsn, hwidth.symm⟩
  · rintro ⟨i, kind, hreachable, hinsn, rfl⟩
    obtain ⟨F, hF⟩ := Option.isSome_iff_exists.1 ((hframed i).2 hreachable)
    obtain ⟨v, htop, hwidth⟩ := hclosed.top?_of_ret hinsn hF
    rw [Run.frame?_eq_some] at hF
    refine ⟨v, Method.mem_returned.2 ⟨i, kind, F, ?_, ?_, htop⟩, hwidth⟩
    · simpa using hinsn
    · simpa using hF

theorem solved_joinAll_ok_iff :
    (∃ result, Value.joinAll (Method.returned m.code.toList
      (cfg.solved m g seed start).frames.toList) = .ok result) ↔ m.ReturnsAlike g := by
  have hreturned {w : Width} := solved_returned_iff hgraph hseed cfg start hstopped (w := w)
  constructor
  · rintro ⟨result, hresult⟩ i j kind kind' hi hj hinsn hinsn'
    obtain ⟨u, hu, huwidth⟩ := hreturned.2 ⟨i, kind, hi, hinsn, rfl⟩
    obtain ⟨v, hv, hvwidth⟩ := hreturned.2 ⟨j, kind', hj, hinsn', rfl⟩
    rw [← huwidth, ← hvwidth]
    exact Value.width_eq_of_joinAll hresult hu hv
  · intro halike
    cases hjoin : Value.joinAll (Method.returned m.code.toList
        (cfg.solved m g seed start).frames.toList) with
    | ok result => exact ⟨result, rfl⟩
    | error e =>
        obtain ⟨u, hu, v, hv, hne, _⟩ := Value.joinAll_error hjoin
        obtain ⟨i, kind, hi, hinsn, hwidth⟩ := hreturned.1 ⟨u, hu, rfl⟩
        obtain ⟨j, kind', hj, hinsn', hwidth'⟩ := hreturned.1 ⟨v, hv, rfl⟩
        rw [← hwidth, ← hwidth'] at hne
        exact absurd (halike i j kind kind' hi hj hinsn hinsn') hne

end

def Clashes (cfg : Config σ) (m : Method) (start : σ) : Prop :=
  ∃ g seed, m.checkLocals = .ok () ∧ m.graph = .ok g ∧ m.entryFrame = .ok seed ∧
    (cfg.solved m g seed start).stopped = none ∧ ¬m.ReturnsAlike g

/--
Unless returned values clash, every error of an analysis is located: the local
table is too small, or an instruction is named.  If they clash, the error names
none.
-/
theorem analyze_error_located (cfg : Config σ) (m : Method) (start : σ) :
    (∀ e, (cfg.analyze m start).1 = .error e → ¬cfg.Clashes m start →
      e.Located m ∧ ((∃ cause, e = .malformed cause) ∨ e.position?.isSome = true)) ∧
    (cfg.Clashes m start →
      ∃ left right, left ≠ right ∧ (cfg.analyze m start).1 = .error (.widthClash left right)) := by
  constructor
  · intro e he hclashes
    have hlocated : e.Located m := by
      rcases analyze_cases cfg m start with ⟨cause, hlocals, heq⟩ | ⟨position, fault, _, heq⟩ |
        ⟨g, seed, hlocals, hgraph, hseed, heq⟩
      · cases heq.symm.trans he
        exact .malformed cause (Method.maxLocals_lt hlocals)
      · cases heq.symm.trans he
        exact .graph position fault
      · -- The run was stopped, or the join of the returned values has failed after it.
        rcases outcome_error (heq.symm.trans he) with hstopped | ⟨hstopped, hjoin⟩
        · exact ((cfg.solved_leads m g seed start).halted rfl e hstopped).located m
        · exfalso
          apply hclashes
          refine ⟨g, seed, hlocals, hgraph, hseed, hstopped, fun halike => ?_⟩
          obtain ⟨result, hresult⟩ :=
            (solved_joinAll_ok_iff hgraph hseed cfg start hstopped).2 halike
          cases hjoin.symm.trans hresult
    exact ⟨hlocated, hlocated.position⟩
  · rintro ⟨g, seed, hlocals, hgraph, hseed, hstopped, halike⟩
    rw [← solved_joinAll_ok_iff hgraph hseed cfg start hstopped] at halike
    cases hjoin : Value.joinAll (Method.returned m.code.toList
        (cfg.solved m g seed start).frames.toList) with
    | ok result => exact absurd ⟨result, hjoin⟩ halike
    | error e =>
        obtain ⟨u, _, v, _, hne, rfl⟩ := Value.joinAll_error hjoin
        refine ⟨u.width, v.width, hne, ?_⟩
        rw [analyze_eq cfg hlocals hgraph hseed start]
        simp [outcome, hstopped, problem, hjoin]

end Config

def mixed : Method where
  owner := "Demo"
  name := "f"
  type := ⟨[.base .int], some (.base .int)⟩
  access := .publicStatic
  maxLocals := 1
  maxStack := none
  code := #[.load .int 0, .branch .eq 4, .const (.int 1), .ret (some .int), .const (.long 1),
    .ret (some .long)]
  handlers := []

private theorem mixed_analyze :
    (({} : Config Unit).analyze mixed ()).1 = .error (.widthClash .one .two) := by
  cbv

theorem spill_mixed_located :
    (unsupported.config.analyze spill (Memo.fresh ())).1 = .error (.frame 2 .stackUnderflow) ∧
      ¬unsupported.config.Clashes spill (Memo.fresh ()) ∧
      (Error.frame 2 .stackUnderflow).Located spill ∧ ({} : Config Unit).Clashes mixed () := by
  have hspill : (unsupported.config.analyze spill (Memo.fresh ())).1 =
      .error (.frame 2 .stackUnderflow) := by cbv
  obtain ⟨hlocated, hclash⟩ :=
    Config.analyze_error_located unsupported.config spill (Memo.fresh ())
  have hnot : ¬unsupported.config.Clashes spill (Memo.fresh ()) := by
    intro h
    obtain ⟨left, right, _, heq⟩ := hclash h
    cases heq.symm.trans hspill
  refine ⟨hspill, hnot, (hlocated _ hspill hnot).1, ?_⟩
  by_contra hmixed
  have h := (Config.analyze_error_located {} mixed ()).1 _ mixed_analyze hmixed
  cases h.1

theorem mixed_error_not_located :
    ∃ e, (({} : Config Unit).analyze mixed ()).1 = .error e ∧ ¬e.Located mixed ∧
      (∀ cause, e ≠ .malformed cause) ∧ e.position? = none := by
  refine ⟨_, mixed_analyze, ?_, ?_, rfl⟩
  · rintro ⟨⟩
  · intro cause h
    cases h

end FrameFlow
