import FrameFlow.Proofs.FixedPoint

/-!
# Outcomes

An analysis fails for a reason that lies in the method alone, or it gives the
outcome of its run: the error that has stopped it, or the frames together with
the join of all values that instructions return.  Values have a join exactly
when they are of one width.
-/

namespace FrameFlow

variable {σ : Type} {R : Value → Value → Prop}

/-! ## Joining many values -/

namespace Value

private theorem foldlM_join_cases (v : Value) (vs : List Value) :
    ((∀ u ∈ vs, u.width = v.width) ∧ vs.foldlM join v = .ok (vs.foldl lub v)) ∨
      ∃ u ∈ vs, u.width ≠ v.width ∧ vs.foldlM join v = .error (.widthClash v.width u.width) := by
  induction vs generalizing v with
  | nil => exact .inl ⟨by simp, rfl⟩
  | cons u vs ih =>
      by_cases hw : v.width = u.width
      · have hjoin : v.join u = .ok (v.lub u) := by simp [join, join?, hw]
        have hrest : (u :: vs).foldlM join v = vs.foldlM join (v.lub u) := by
          rw [List.foldlM_cons, hjoin]
          rfl
        rw [hrest]
        rcases ih (v.lub u) with ⟨hsame, hok⟩ | ⟨x, hx, hne, herror⟩
        · left
          constructor
          · simpa [hw] using hsame
          · exact hok
        · right
          refine ⟨x, by simp [hx], ?_⟩
          simpa using And.intro hne herror
      · right
        refine ⟨u, by simp, Ne.symm hw, ?_⟩
        have hjoin : v.join u = .error (.widthClash v.width u.width) := by
          simp [join, join?, hw]
        rw [List.foldlM_cons, hjoin]
        rfl

theorem joinAll_cons_cases (v : Value) (vs : List Value) :
    ((∀ u ∈ vs, u.width = v.width) ∧ joinAll (v :: vs) = .ok (some (vs.foldl lub v))) ∨
      ∃ u ∈ vs, u.width ≠ v.width ∧ joinAll (v :: vs) = .error (.widthClash v.width u.width) := by
  rcases foldlM_join_cases v vs with ⟨hsame, hok⟩ | ⟨u, hu, hne, herror⟩
  · left
    refine ⟨hsame, ?_⟩
    simp [joinAll, hok, Except.map]
  · right
    refine ⟨u, hu, hne, ?_⟩
    simp [joinAll, herror, Except.map]

theorem joinAll_error {vs : List Value} {e : Error} (h : joinAll vs = .error e) :
    ∃ u ∈ vs, ∃ v ∈ vs, u.width ≠ v.width ∧ e = .widthClash u.width v.width := by
  cases vs with
  | nil => cases h
  | cons v vs =>
      rcases joinAll_cons_cases v vs with ⟨_, hok⟩ | ⟨u, hu, hne, herror⟩
      · rw [hok] at h
        cases h
      · rw [herror] at h
        cases h
        exact ⟨v, by simp, u, by simp [hu], Ne.symm hne, rfl⟩

theorem width_eq_of_joinAll {vs : List Value} {result : Option Value}
    (h : joinAll vs = .ok result) {u v : Value} (hu : u ∈ vs) (hv : v ∈ vs) :
    u.width = v.width := by
  cases vs with
  | nil => cases hu
  | cons w vs =>
      rcases joinAll_cons_cases w vs with ⟨hsame, _⟩ | ⟨_, _, _, herror⟩
      · have hall : ∀ x ∈ w :: vs, x.width = w.width := by simpa using hsame
        rw [hall u hu, hall v hv]
      · rw [herror] at h
        cases h

private theorem foldl_lub_rel (hR : JoinStable R) {us vs : List Value} (h : List.Forall₂ R us vs)
    {u v : Value} (huv : R u v) (hw : ∀ x ∈ vs, x.width = v.width) :
    R (us.foldl lub u) (vs.foldl lub v) := by
  induction h generalizing u v with
  | nil => exact huv
  | @cons a b us vs hab _ ih =>
      have hwb : v.width = b.width := (hw b (by simp)).symm
      have hleft : R u (v.lub b) := hR.above huv (le_lub_left v b)
      have hright : R a (v.lub b) := hR.above hab (le_lub_right hwb)
      apply ih (hR.lub hleft hright)
      intro x hx
      rw [lub_width]
      exact hw x (by simp [hx])

theorem joinAll_rel (hR : JoinStable R) {us vs : List Value} (h : List.Forall₂ R us vs)
    {result : Option Value} (hvs : joinAll vs = .ok result) :
    ∃ result', joinAll us = .ok result' ∧ Option.Rel R result' result := by
  cases h with
  | nil =>
      cases hvs
      exact ⟨none, rfl, .none⟩
  | @cons u v us vs huv hrest =>
      rcases joinAll_cons_cases v vs with ⟨hsame, hok⟩ | ⟨_, _, _, herror⟩
      · cases hok.symm.trans hvs
        rcases joinAll_cons_cases u us with ⟨_, hok'⟩ | ⟨x, hx, hne, _⟩
        · exact ⟨_, hok', .some (foldl_lub_rel hR hrest huv hsame)⟩
        · have hx' : x.width ∈ vs.map Value.width := by
            rw [← Frame.widths_eq hR hrest]
            exact List.mem_map_of_mem hx
          obtain ⟨y, hy, hyx⟩ := List.mem_map.1 hx'
          rw [← hyx, hsame y hy, hR.width huv] at hne
          exact absurd rfl hne
      · rw [herror] at hvs
        cases hvs

end Value

/-! ## Returned values -/

namespace Method

theorem returned_cons (insn : Insn Nat) (code : List (Insn Nat)) (slot : Option Frame)
    (frames : List (Option Frame)) :
    returned (insn :: code) (slot :: frames) =
      returned [insn] [slot] ++ returned code frames := by
  by_cases h : ∃ kind F, insn = .ret (some kind) ∧ slot = some F
  · obtain ⟨kind, F, rfl, rfl⟩ := h
    simp [returned]
  · have hnone (code : List (Insn Nat)) (frames : List (Option Frame)) :
        returned (insn :: code) (slot :: frames) = returned code frames := by
      rw [returned]
      intro kind F hinsn hslot
      exact h ⟨kind, F, hinsn, hslot⟩
    simp [hnone, returned]

private theorem mem_returned_one {insn : Insn Nat} {slot : Option Frame} {v : Value} :
    v ∈ returned [insn] [slot] ↔
      ∃ kind F, insn = .ret (some kind) ∧ slot = some F ∧ F.top? = some v := by
  cases insn with
  | ret kind => cases kind <;> cases slot <;> simp [returned]
  | _ => simp [returned]

theorem mem_returned {code : List (Insn Nat)} {frames : List (Option Frame)} {v : Value} :
    v ∈ returned code frames ↔ ∃ (i : Nat) (kind : Kind) (F : Frame),
      code[i]? = some (.ret (some kind)) ∧ frames[i]? = some (some F) ∧ F.top? = some v := by
  induction code generalizing frames with
  | nil => simp [returned]
  | cons insn code ih =>
      cases frames with
      | nil => simp [returned]
      | cons slot frames =>
          rw [returned_cons, List.mem_append, mem_returned_one, ih]
          constructor
          · rintro (⟨kind, F, rfl, rfl, htop⟩ | ⟨i, h⟩)
            · exact ⟨0, kind, F, rfl, rfl, htop⟩
            · exact ⟨i + 1, h⟩
          · rintro ⟨i, kind, F, hinsn, hslot, htop⟩
            cases i with
            | zero => exact .inl ⟨kind, F, by simpa using hinsn, by simpa using hslot, htop⟩
            | succ i => exact .inr ⟨i, kind, F, hinsn, hslot, htop⟩

private theorem returned_one_rel (insn : Insn Nat) {slot slot' : Option Frame}
    (h : Option.Rel (Frame.Rel R) slot slot') :
    List.Forall₂ R (returned [insn] [slot]) (returned [insn] [slot']) := by
  cases insn with
  | ret kind =>
      cases h with
      | none => cases kind <;> simp [returned]
      | @some F G hFG =>
          cases kind with
          | none => simp [returned]
          | some kind =>
              have hstack := hFG.stack
              simp only [returned, Frame.top?]
              generalize F.stack = s at hstack ⊢
              generalize G.stack = t at hstack ⊢
              cases hstack with
              | nil => simp
              | cons hab _ => simpa using hab
  | _ => simp [returned]

theorem returned_rel (code : List (Insn Nat)) {frames frames' : List (Option Frame)}
    (h : List.Forall₂ (Option.Rel (Frame.Rel R)) frames frames') :
    List.Forall₂ R (returned code frames) (returned code frames') := by
  induction code generalizing frames frames' with
  | nil => simp [returned]
  | cons insn code ih =>
      cases h with
      | nil => simp [returned]
      | @cons slot slot' frames frames' hslot hrest =>
          rw [returned_cons insn code slot, returned_cons insn code slot']
          exact List.rel_append (returned_one_rel insn hslot) (ih hrest)

end Method

/-! ## The outcome of an analysis -/

namespace Config

theorem outcome_ok {p : Problem σ} {S : Run σ} {a : Analysis} (h : outcome p S = .ok a) :
    S.stopped = none ∧
      ∃ result, Value.joinAll (Method.returned p.method.code.toList S.frames.toList) =
          .ok result ∧ a = ⟨S.frames, S.failures, S.steps, result, p.order⟩ := by
  unfold outcome at h
  split at h
  · cases h
  · rename_i hstopped
    split at h
    · cases h
    · rename_i result hresult
      cases h
      exact ⟨hstopped, result, hresult, rfl⟩

theorem outcome_of_joinAll {p : Problem σ} {S : Run σ} {result : Option Value}
    (hstopped : S.stopped = none)
    (hresult : Value.joinAll (Method.returned p.method.code.toList S.frames.toList) =
      .ok result) :
    outcome p S = .ok ⟨S.frames, S.failures, S.steps, result, p.order⟩ := by
  simp [outcome, hstopped, hresult]

theorem outcome_stopped {p : Problem σ} {S : Run σ} {e : Error} (h : S.stopped = some e) :
    outcome p S = .error e := by
  simp [outcome, h]

theorem outcome_error {p : Problem σ} {S : Run σ} {e : Error} (h : outcome p S = .error e) :
    S.stopped = some e ∨ (S.stopped = none ∧
      Value.joinAll (Method.returned p.method.code.toList S.frames.toList) = .error e) := by
  unfold outcome at h
  split at h
  · rename_i hstopped
    cases h
    exact .inl hstopped
  · rename_i hstopped
    split at h
    · rename_i hjoin
      cases h
      exact .inr ⟨hstopped, hjoin⟩
    · cases h

theorem analyze_eq (cfg : Config σ) {m : Method} {g : FlowGraph} {seed : Frame}
    (hlocals : m.checkLocals = .ok ()) (hgraph : m.graph = .ok g)
    (hseed : m.entryFrame = .ok seed) (start : σ) :
    (cfg.analyze m start).1 = outcome (cfg.problem m g) (cfg.solved m g seed start) := by
  simp only [analyze, hlocals, hgraph, hseed]
  rfl

/-- Which of the three it is does not depend on the configuration. -/
theorem analyze_cases (cfg : Config σ) (m : Method) (start : σ) :
    (∃ cause, m.checkLocals = .error cause ∧
        (cfg.analyze m start).1 = .error (.malformed cause)) ∨
      (∃ position fault, m.graph = .error (.graph position fault) ∧
        (cfg.analyze m start).1 = .error (.graph position fault)) ∨
      ∃ g seed, m.checkLocals = .ok () ∧ m.graph = .ok g ∧ m.entryFrame = .ok seed ∧
        (cfg.analyze m start).1 =
          outcome (cfg.problem m g) (cfg.solved m g seed start) := by
  cases hlocals : m.checkLocals with
  | error cause => exact .inl ⟨cause, rfl, by simp [analyze, hlocals]⟩
  | ok checked =>
      right
      cases hgraph : m.graph with
      | error e =>
          left
          obtain ⟨position, fault, rfl⟩ := Method.graph_error hgraph
          exact ⟨position, fault, rfl, by simp [analyze, hlocals, hgraph]⟩
      | ok g =>
          right
          obtain ⟨seed, hseed⟩ := Method.entryFrame_ok hlocals
          exact ⟨g, seed, rfl, rfl, hseed, cfg.analyze_eq hlocals hgraph hseed start⟩

theorem analyze_outcome {cfg : Config σ} {m : Method} {start : σ} {a : Analysis}
    (h : (cfg.analyze m start).1 = .ok a) :
    ∃ g seed, m.checkLocals = .ok () ∧ m.graph = .ok g ∧ m.entryFrame = .ok seed ∧
      outcome (cfg.problem m g) (cfg.solved m g seed start) = .ok a := by
  rcases analyze_cases cfg m start with ⟨_, _, heq⟩ | ⟨_, _, _, heq⟩ |
    ⟨g, seed, hlocals, hgraph, hseed, heq⟩
  · rw [heq] at h
    cases h
  · rw [heq] at h
    cases h
  · exact ⟨g, seed, hlocals, hgraph, hseed, heq.symm.trans h⟩

end Config

theorem Analysis.exists_of_map {α : Type} {f : Analysis → α} {x : Except Error Analysis} {y : α}
    (h : x.map f = .ok y) : ∃ a, x = .ok a ∧ f a = y := by
  cases x with
  | error e => cases h
  | ok a =>
      cases h
      exact ⟨a, rfl, rfl⟩

end FrameFlow
