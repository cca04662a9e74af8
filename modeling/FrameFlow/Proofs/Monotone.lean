import FrameFlow.Proofs.Answers
import FrameFlow.Scripted

/-!
# More precise frames stay more precise

With tables of field constants and pure methods as sources, an instruction
carried out on a more precise frame gives a more precise frame, and fails only
if it fails on the less precise one.  Calls are the delicate case: from more
precise arguments a call may be folded or run by the host where it was not
before.  But when the host can run it on the less precise arguments already,
the more precise ones are the same to it and to the table, and when it cannot,
the result there is unresolved.

A constant carried by the host is left out: a class test answers less about it
than about the same constant carried openly.
-/

namespace FrameFlow

variable {σ : Type}

namespace Value

/-- At least as precise, and not a constant behind the host. -/
def Refines (a b : Value) : Prop :=
  a.Plain ∧ a ≤ b

theorem Plain.refines {a : Value} (h : a.Plain) : a.Refines a :=
  ⟨h, le_refl a⟩

theorem Plain.refines_unresolved {a : Value} (h : a.Plain) {w : Width} (hw : a.width = w) :
    a.Refines (unresolved w) :=
  ⟨h, le_unresolved hw⟩

theorem native_ofFold (c : Option Const) (w : Width) : (ofFold c w).Native := by
  cases c <;> trivial

private theorem ofFold_width {c : Option Const} {w : Width} (h : ∀ d, c = some d → d.width = w) :
    (ofFold c w).width = w := by
  cases c with
  | none => rfl
  | some d => exact h d rfl

theorem native_instanceTest (a : Value) (className : String) :
    (a.instanceTest className).Native := by
  unfold instanceTest
  split
  · trivial
  · split <;> trivial
  · split <;> trivial
  · trivial

theorem instanceTest_width (a : Value) (className : String) :
    (a.instanceTest className).width = .one := by
  unfold instanceTest
  split
  · rfl
  · split <;> rfl
  · split <;> rfl
  · rfl

theorem fold₁_width {f : Const → Option Const} {w : Width}
    (hf : ∀ c d, f c = some d → d.width = w) (a : Value) :
    (ofFold (a.fold₁ f) w).width = w := by
  refine ofFold_width fun d hd => ?_
  unfold fold₁ at hd
  split at hd
  · exact hf _ d hd
  · cases hd

theorem fold₂_width {f : Const → Const → Option Const} {w : Width}
    (hf : ∀ c c' d, f c c' = some d → d.width = w) (a a' : Value) :
    (ofFold (a.fold₂ f a') w).width = w := by
  refine ofFold_width fun d hd => ?_
  unfold fold₂ at hd
  split at hd
  · exact hf _ _ d hd
  · cases hd

theorem le_fold₁ {f : Const → Option Const} {w : Width} {a b : Value}
    (hf : ∀ c d, f c = some d → d.width = w) (h : a ≤ b) :
    ofFold (a.fold₁ f) w ≤ ofFold (b.fold₁ f) w := by
  cases hb : b.const? with
  | none =>
      have htop : b.fold₁ f = none := by simp [fold₁, hb]
      rw [htop]
      exact le_unresolved (fold₁_width hf a)
  | some c =>
      have hsame : a.fold₁ f = b.fold₁ f := by simp [fold₁, hb, const?_of_le h hb]
      rw [hsame]

theorem le_fold₂ {f : Const → Const → Option Const} {w : Width} {a b a' b' : Value}
    (hf : ∀ c c' d, f c c' = some d → d.width = w) (h : a ≤ b) (h' : a' ≤ b') :
    ofFold (a.fold₂ f a') w ≤ ofFold (b.fold₂ f b') w := by
  have hopen : b.fold₂ f b' = none → ofFold (a.fold₂ f a') w ≤ ofFold (b.fold₂ f b') w := by
    intro htop
    rw [htop]
    exact le_unresolved (fold₂_width hf a a')
  cases hb : b.const? with
  | none => exact hopen (by simp [fold₂, hb])
  | some c =>
      cases hb' : b'.const? with
      | none => exact hopen (by simp [fold₂, hb, hb'])
      | some c' =>
          have hsame : a.fold₂ f a' = b.fold₂ f b' := by
            simp [fold₂, hb, hb', const?_of_le h hb, const?_of_le h' hb']
          rw [hsame]

theorem refines_fold₁ {f : Const → Option Const} {w : Width} {a b : Value}
    (hf : ∀ c d, f c = some d → d.width = w) (h : a.Refines b) :
    (ofFold (a.fold₁ f) w).Refines (ofFold (b.fold₁ f) w) :=
  ⟨(native_ofFold _ w).plain, le_fold₁ hf h.2⟩

theorem refines_fold₂ {f : Const → Const → Option Const} {w : Width} {a b a' b' : Value}
    (hf : ∀ c c' d, f c c' = some d → d.width = w) (h : a.Refines b) (h' : a'.Refines b') :
    (ofFold (a.fold₂ f a') w).Refines (ofFold (b.fold₂ f b') w) :=
  ⟨(native_ofFold _ w).plain, le_fold₂ hf h.2 h'.2⟩

theorem refines_instanceTest {a b : Value} (className : String) (h : a.Refines b) :
    (a.instanceTest className).Refines (b.instanceTest className) := by
  rcases le_cases h.2 with rfl | htop | ⟨c, rfl, _⟩
  · exact (native_instanceTest a className).plain.refines
  · rw [htop]
    exact (native_instanceTest a className).plain.refines_unresolved
      (instanceTest_width a className)
  · exact h.1.elim

theorem refines_respected : Respected Refines where
  width h := width_eq_of_le h.2
  lub ha hb := ⟨plain_lub ha.1, lub_le ha.2 hb.2⟩
  above h hle := ⟨h.1, le_trans h.2 hle⟩
  unresolved _ := Plain.refines trivial
  const _ := Plain.refines trivial
  ref _ := Plain.refines trivial
  fold₁ := refines_fold₁
  fold₂ := refines_fold₂
  instanceTest := refines_instanceTest

end Value

/-! ## The arguments of a call -/

section Arguments

open Value

variable {args args' : List Value}

theorem constArguments?_of_hostArguments? (h : hostArguments? args = none) :
    constArguments? args = none := by
  induction args with
  | nil => cases h
  | cons a args ih =>
      simp only [hostArguments?, constArguments?] at h ⊢
      cases ha : a.const? with
      | none => rfl
      | some c =>
          obtain ⟨v, hv⟩ : ∃ v, a.host? = some v := by
            match a, ha with
            | .const c, _ => exact ⟨.const c, rfl⟩
            | .sim v, _ => exact ⟨v, rfl⟩
          cases hargs : hostArguments? args with
          | none => simp [ih hargs]
          | some vs => simp [hv, hargs] at h

theorem arguments_eq (h : List.Forall₂ (· ≤ ·) args args') {vs : List HostValue}
    (hvs : hostArguments? args' = some vs) :
    hostArguments? args = hostArguments? args' ∧ constArguments? args = constArguments? args' := by
  induction h generalizing vs with
  | nil => exact ⟨rfl, rfl⟩
  | @cons a b args args' hab _ ih =>
      simp only [hostArguments?] at hvs
      cases hb : b.host? with
      | none => simp [hb] at hvs
      | some v =>
          cases hargs : hostArguments? args' with
          | none => simp [hargs] at hvs
          | some rest =>
              obtain ⟨hhost, hconst⟩ := ih hargs
              have ha : a.host? = some v := host?_of_le hab hb
              simp only [hostArguments?, constArguments?, ha, hb, hhost, hconst,
                const?_of_host? ha, const?_of_host? hb, and_self]

end Arguments

/-! ## The shape of a result -/

theorem Value.shapedTo_width (v : Value) (w : Width) : (v.shapedTo w).width = w := by
  unfold Value.shapedTo
  split
  · assumption
  · rfl

private theorem MethodRef.unresolvedResult_width (m : MethodRef) :
    m.unresolvedResult.map Value.width = m.resultWidth? := by
  unfold MethodRef.unresolvedResult
  cases m.resultWidth? <;> rfl

private theorem MethodRef.shapedResult_width (m : MethodRef) (answer : Option Value) :
    (m.shapedResult answer).map Value.width = m.resultWidth? := by
  unfold MethodRef.shapedResult
  split
  · rename_i hw
    rw [hw]
    rfl
  · rename_i hw
    rw [hw]
    rfl
  · rename_i hw
    rw [hw]
    simp [Value.shapedTo_width]

private theorem Value.ofHost_width (v : HostValue) : (Value.ofHost v).width = v.width := by
  cases v <;> rfl

private theorem Answer.accept_width {position : Nat} {m : MethodRef} {answer : Answer}
    {result : Option Value} (h : answer.accept position m = .ok result) :
    result.map Value.width = m.resultWidth? := by
  unfold Answer.accept at h
  split at h
  · cases h
  · rename_i value
    split at h
    · cases h
    · rename_i hfault
      cases h
      unfold MethodRef.resultWidth?
      unfold resultFault? at hfault
      split at hfault
      · rename_i hresult
        rw [hresult]
        rfl
      · cases hfault
      · cases hfault
      · rename_i t v hresult
        split at hfault
        · rename_i hw
          simp [hresult, Value.ofHost_width, hw]
        · cases hfault

namespace Config

private theorem simulateCall_width {cfg : Config σ} {position : Nat} {m : MethodRef}
    {args : List Value} {answer result : Option Value} {world : σ}
    (hanswer : answer.map Value.width = m.resultWidth?)
    (h : (cfg.simulateCall position m args answer world).1 = .ok result) :
    result.map Value.width = m.resultWidth? := by
  unfold simulateCall at h
  split at h
  · exact Answer.accept_width h
  · cases h
    exact hanswer

theorem callResult_width (cfg : Config σ) (world : σ) (position : Nat) (m : MethodRef)
    (args : List Value) :
    (cfg.callResult world position m args).map Value.width = m.resultWidth? := by
  unfold callResult
  split
  · rename_i result hcall
    unfold staticCall at hcall
    split at hcall
    · exact simulateCall_width m.unresolvedResult_width hcall
    · simp only at hcall
      split at hcall
      · exact simulateCall_width (m.shapedResult_width _) hcall
      · cases hcall
        exact m.shapedResult_width _
  · exact m.unresolvedResult_width

/-! ## Tables as sources -/

structure Tabled (cfg : Config σ) : Prop where
  fields : cfg.fields = none ∨ ∃ known : KnownFields, cfg.fields = some known.source
  calls : cfg.calls = none ∨ ∃ methods : PureMethods, cfg.calls = some methods.source

end Config

theorem Value.Native.shapedTo {v : Value} (h : v.Native) (w : Width) :
    (v.shapedTo w).Native := by
  unfold Value.shapedTo
  split
  · exact h
  · trivial

theorem KnownFields.native_get (known : KnownFields) (f : FieldRef) :
    (known.get f).Native := by
  unfold KnownFields.get
  split <;> trivial

theorem PureMethods.native_call {methods : PureMethods} {m : MethodRef} {args : List Value}
    {v : Value} (h : methods.call m args = some v) : v.Native := by
  unfold PureMethods.call at h
  split at h
  · cases h
  · split at h <;> cases h <;> trivial

namespace MethodRef

theorem native_unresolvedResult {m : MethodRef} {v : Value} (h : m.unresolvedResult = some v) :
    v.Native := by
  obtain ⟨w, _, rfl⟩ := Option.map_eq_some_iff.1 h
  trivial

theorem native_shapedResult {m : MethodRef} {answer : Option Value}
    (hanswer : ∀ v, answer = some v → v.Native) {v : Value}
    (h : m.shapedResult answer = some v) : v.Native := by
  unfold MethodRef.shapedResult at h
  split at h
  · cases h
  · cases h
    trivial
  · cases h
    exact (hanswer _ rfl).shapedTo _

end MethodRef

private theorem Answer.plain_accept {position : Nat} {m : MethodRef} {answer : Answer} {v : Value}
    (h : answer.accept position m = .ok (some v)) : v.Plain := by
  unfold Answer.accept at h
  split at h
  · cases h
  · split at h
    · cases h
    · simp only [Except.ok.injEq] at h
      obtain ⟨u, _, rfl⟩ := Option.map_eq_some_iff.1 h
      exact Value.plain_ofHost u

namespace Config

private theorem plain_simulateCall {cfg : Config σ} {position : Nat} {m : MethodRef}
    {args : List Value}
    {answer : Option Value} {world : σ} {v : Value} (hanswer : ∀ v, answer = some v → v.Plain)
    (h : (cfg.simulateCall position m args answer world).1 = .ok (some v)) : v.Plain := by
  unfold simulateCall at h
  split at h
  · exact Answer.plain_accept h
  · cases h
    exact hanswer v rfl

namespace Tabled

variable {cfg : Config σ}

theorem repeatable (hcfg : cfg.Tabled) {I : σ → Prop}
    (hhost : ∀ host, cfg.host = some host → ∀ m args, Repeats I (host m args)) :
    Repeatable { cfg with policy := none } I where
  fields source hsource f := by
    rcases hcfg.fields with hnone | ⟨known, hknown⟩
    · cases hnone.symm.trans hsource
    · cases hknown.symm.trans hsource
      exact .pure _
  calls source hsource m args := by
    rcases hcfg.calls with hnone | ⟨methods, hmethods⟩
    · cases hnone.symm.trans hsource
    · cases hmethods.symm.trans hsource
      exact .pure _
  host := hhost
  policy _ hpolicy := by cases hpolicy

theorem staticField_refines (hcfg : cfg.Tabled) (f : FieldRef) (world world' : σ) :
    (cfg.staticField f world).1.Refines (cfg.staticField f world').1 := by
  unfold staticField
  rcases hcfg.fields with hnone | ⟨known, hknown⟩
  · rw [hnone]
    exact Value.Plain.refines trivial
  · rw [hknown]
    exact ((known.native_get f).shapedTo f.width).plain.refines

theorem staticCall_table {methods : PureMethods} (h : cfg.calls = some methods.source)
    (position : Nat) (m : MethodRef) (args : List Value) (world : σ) :
    cfg.staticCall position m args world =
      if isOpen (m.shapedResult (methods.call m args)) then
        cfg.simulateCall position m args (m.shapedResult (methods.call m args)) world
      else (.ok (m.shapedResult (methods.call m args)), world) := by
  unfold staticCall
  rw [h]
  rfl

private theorem plain_callResult (hcfg : cfg.Tabled) (world : σ) (position : Nat) (m : MethodRef)
    (args : List Value) {v : Value} (h : cfg.callResult world position m args = some v) :
    v.Plain := by
  unfold callResult at h
  split at h
  · rename_i result hcall
    subst h
    rcases hcfg.calls with hnone | ⟨methods, hmethods⟩
    · unfold staticCall at hcall
      rw [hnone] at hcall
      exact plain_simulateCall (fun _ hv => (MethodRef.native_unresolvedResult hv).plain) hcall
    · have hplain (v : Value) (hv : m.shapedResult (methods.call m args) = some v) : v.Plain :=
        (MethodRef.native_shapedResult (fun _ => PureMethods.native_call) hv).plain
      rw [staticCall_table hmethods] at hcall
      by_cases hopen : isOpen (m.shapedResult (methods.call m args)) = true
      · rw [if_pos hopen] at hcall
        exact plain_simulateCall hplain hcall
      · rw [if_neg hopen] at hcall
        exact hplain v (Except.ok.inj hcall)
  · exact (MethodRef.native_unresolvedResult h).plain

/-- A call the host cannot take stays unresolved: the table needs constants, too. -/
theorem callResult_of_not_host (hcfg : cfg.Tabled) (world : σ) (position : Nat) (m : MethodRef)
    {args : List Value} (hargs : Value.hostArguments? args = none) :
    cfg.callResult world position m args = m.unresolvedResult := by
  have hsimulate (answer : Option Value) :
      cfg.simulateCall position m args answer world = (.ok answer, world) := by
    unfold simulateCall
    split
    · rename_i hsome
      rw [hargs] at hsome
      cases hsome
    · rfl
  unfold callResult
  rcases hcfg.calls with hnone | ⟨methods, hmethods⟩
  · unfold staticCall
    rw [hnone]
    simp only [hsimulate]
  · have hshaped : m.shapedResult (methods.call m args) = m.unresolvedResult := by
      have hfold : methods.fold? m args = none := by
        simp [PureMethods.fold?, constArguments?_of_hostArguments? hargs]
      unfold MethodRef.shapedResult MethodRef.unresolvedResult PureMethods.call
      cases hw : m.resultWidth? with
      | none => rfl
      | some w => simp [hfold, Value.shapedTo, Value.width]
    rw [staticCall_table hmethods, hshaped, hsimulate, ite_self]

/-- A call sees no more of its arguments than the table and the host do. -/
theorem staticCall_congr (hcfg : cfg.Tabled) (position : Nat) (m : MethodRef)
    {args args' : List Value} (hhost : Value.hostArguments? args = Value.hostArguments? args')
    (hconst : constArguments? args = constArguments? args') (world : σ) :
    cfg.staticCall position m args world = cfg.staticCall position m args' world := by
  have hsimulate (answer : Option Value) :
      cfg.simulateCall position m args answer world =
        cfg.simulateCall position m args' answer world := by
    simp only [simulateCall, hhost]
  rcases hcfg.calls with hnone | ⟨methods, hmethods⟩
  · unfold staticCall
    rw [hnone]
    exact hsimulate _
  · have hcall : methods.call m args = methods.call m args' := by
      simp only [PureMethods.call, PureMethods.fold?, hconst]
    rw [staticCall_table hmethods, staticCall_table hmethods, hcall, hsimulate]

private theorem callResult_congr (hcfg : cfg.Tabled) (world : σ) (position : Nat) (m : MethodRef)
    {args args' : List Value} (hhost : Value.hostArguments? args = Value.hostArguments? args')
    (hconst : constArguments? args = constArguments? args') :
    cfg.callResult world position m args = cfg.callResult world position m args' := by
  simp only [callResult, hcfg.staticCall_congr position m hhost hconst world]

theorem callResult_refines (hcfg : cfg.Tabled) {I : σ → Prop} (hrepeat : cfg.Repeatable I)
    {world world' : σ} (hworld : I world) (hworld' : I world') (position : Nat) (m : MethodRef)
    {args args' : List Value} (hargs : List.Forall₂ (· ≤ ·) args args') :
    Option.Rel Value.Refines (cfg.callResult world position m args)
      (cfg.callResult world' position m args') := by
  have hplain {v : Value} (hv : cfg.callResult world position m args = some v) : v.Plain :=
    hcfg.plain_callResult world position m args hv
  cases hhost : Value.hostArguments? args' with
  | none =>
      rw [hcfg.callResult_of_not_host world' position m hhost, MethodRef.unresolvedResult]
      have hwidth := cfg.callResult_width world position m args
      cases hresult : cfg.callResult world position m args with
      | none =>
          rw [hresult] at hwidth
          rw [← hwidth]
          exact .none
      | some v =>
          rw [hresult] at hwidth
          rw [← hwidth]
          exact .some ((hplain hresult).refines_unresolved rfl)
  | some vs =>
      obtain ⟨hsame, hconst⟩ := arguments_eq hargs hhost
      have hanswer : cfg.callResult world' position m args' =
          cfg.callResult world position m args := by
        rw [← hcfg.callResult_congr world' position m hsame hconst]
        simp only [callResult, (hrepeat.staticCall position m args).answer_eq hworld' hworld]
      rw [hanswer]
      cases hresult : cfg.callResult world position m args with
      | none => exact .none
      | some v => exact .some (hplain hresult).refines

/-- More precise frames stay more precise, whichever world the questions are asked in. -/
theorem onward_refines (hcfg : cfg.Tabled) {I : σ → Prop} (hrepeat : cfg.Repeatable I)
    {world world' : σ} (hworld : I world) (hworld' : I world') {F G : Frame}
    (h : Frame.Rel Value.Refines F G) (position : Nat) (insn : Insn Nat) :
    Follows (Frame.Rel Value.Refines) (cfg.onward world position insn F)
      (cfg.onward world' position insn G) :=
  onward_follows Value.refines_respected
    (fun f => hcfg.staticField_refines f world world')
    (fun position m _ _ hargs =>
      hcfg.callResult_refines hrepeat hworld hworld' position m
        (hargs.imp fun _ _ hab => hab.2)) h position insn

end Tabled

end Config

end FrameFlow
